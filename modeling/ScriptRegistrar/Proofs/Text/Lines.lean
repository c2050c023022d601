import ScriptRegistrar.Proofs.Text.CharacterClasses
import ScriptRegistrar.Proofs.Text.Trimming

/-!
# Lines

A line stands in its text between line feeds, so its words are words of the text, and trimming it
takes none of them away.  A Windows line ending is found across two parts of a text only where one
part ends with the carriage return and the next starts with the line feed.
-/

namespace ScriptRegistrar.Text

@[simp] theorem lines_append (left right : List Char) :
    lines (left ++ '\n' :: right) = lines left ++ lines right :=
  fields_append_separator _ left right (by decide)

theorem lines_of_not_mem {text : List Char} (oneLine : '\n' ∉ text) : lines text = [text] := by
  apply fields_eq_singleton
  intro character member
  exact decide_eq_false fun equality => oneLine (equality ▸ member)

theorem ne_lineFeed_of_oneLine {text : List Char} (oneLine : '\n' ∉ text) :
    ∀ character ∈ text, decide (character ≠ '\n') = true :=
  fun _ member => decide_eq_true fun isFeed => oneLine (isFeed ▸ member)

theorem lines_cases (text : List Char) :
    '\n' ∉ text ∨ ∃ first rest, text = first ++ '\n' :: rest ∧ '\n' ∉ first := by
  induction text with
  | nil => exact Or.inl (by simp)
  | cons next later induction =>
      by_cases isBreak : next = '\n'
      · exact Or.inr ⟨[], later, by simp [isBreak], by simp⟩
      · rcases induction with oneLine | ⟨first, rest, rfl, noBreak⟩
        · exact Or.inl (by simp [oneLine, Ne.symm isBreak])
        · exact Or.inr ⟨next :: first, rest, rfl, by simp [noBreak, Ne.symm isBreak]⟩

/-- Induction along the lines of a text. -/
@[elab_as_elim]
theorem lines_induction {motive : List Char → Prop}
    (last : ∀ text, '\n' ∉ text → motive text)
    (line : ∀ first rest, '\n' ∉ first → motive rest → motive (first ++ '\n' :: rest))
    (text : List Char) : motive text := by
  generalize length : text.length = bound
  induction bound using Nat.strongRecOn generalizing text with
  | ind bound induction =>
      rcases lines_cases text with oneLine | ⟨first, rest, rfl, noBreak⟩
      · exact last text oneLine
      · refine line first rest noBreak (induction rest.length ?_ rest rfl)
        rw [← length, List.length_append, List.length_cons]
        omega

/-- Where a line stands in its text. -/
theorem parts_of_mem_lines {text line : List Char} (member : line ∈ lines text) :
    '\n' ∉ line ∧ ∃ before behind, text = before ++ (line ++ behind) ∧
      NotInWord before.reverse ∧ behind.head?.any isWord = false := by
  induction text using lines_induction with
  | last text oneLine =>
      rw [lines_of_not_mem oneLine] at member
      rw [List.mem_singleton.mp member]
      exact ⟨oneLine, [], [], by simp, notInWord_nil, rfl⟩
  | line first rest noBreak induction =>
      rw [lines_append, lines_of_not_mem noBreak] at member
      rcases List.mem_append.mp member with here | later
      · rw [List.mem_singleton.mp here]
        exact ⟨noBreak, [], '\n' :: rest, rfl, notInWord_nil,
          show isWord '\n' = false by decide⟩
      · obtain ⟨single, before, behind, shape, ended, separated⟩ := induction later
        refine ⟨single, first ++ '\n' :: before, behind, by rw [shape]; simp, ?_, separated⟩
        rw [List.reverse_append, List.reverse_cons, List.append_assoc]
        exact ended.append (notInWord_cons (by decide))

theorem mem_wordsIn_of_mem_lines {text line word : List Char} (member : line ∈ lines text)
    (found : word ∈ wordsIn line) : word ∈ wordsIn text := by
  obtain ⟨_, before, behind, rfl, ended, separated⟩ := parts_of_mem_lines member
  rw [wordsIn_append_of_ended _ ended, wordsIn_append _ separated]
  exact List.mem_append_right _ (List.mem_append_left _ found)

theorem parts_of_trim (text : List Char) :
    ∃ before behind, text = before ++ (trim text ++ behind) ∧
      (∀ character ∈ before, isBlank character = true) ∧
        ∀ character ∈ behind, isBlank character = true := by
  obtain ⟨behind, shape, blank⟩ := dropEndWhile_append isBlank (trimStart text)
  refine ⟨text.takeWhile isBlank, behind, ?_, ?_, blank⟩
  · rw [trim, trimEnd, ← shape, trimStart, List.takeWhile_append_dropWhile]
  · exact fun _ member => List.all_eq_true.mp List.all_takeWhile _ member

/-- Blanks around a text are taken away with those it has at its own ends. -/
theorem trim_between {before behind : List Char} (text : List Char)
    (blankBefore : ∀ character ∈ before, isBlank character = true)
    (blankBehind : ∀ character ∈ behind, isBlank character = true) :
    trim (before ++ (text ++ behind)) = trim text := by
  obtain ⟨front, back, shape, blankFront, blankBack⟩ := parts_of_trim text
  calc trim (before ++ (text ++ behind))
      = trim (before ++ ((front ++ (trim text ++ back)) ++ behind)) := by rw [← shape]
    _ = trim (before ++ front ++ (trim text ++ (back ++ behind))) := by simp only [List.append_assoc]
    _ = trim text := ?_
  exact trim_surrounded (isTrimmed_trim text) (List.forall_mem_append.mpr ⟨blankBefore, blankFront⟩)
    (List.forall_mem_append.mpr ⟨blankBack, blankBehind⟩)

theorem notInWord_of_blanks {blanks : List Char}
    (blank : ∀ character ∈ blanks, isBlank character = true) : NotInWord blanks.reverse := by
  cases reversed : blanks.reverse with
  | nil => exact notInWord_nil
  | cons last others =>
      have member : last ∈ blanks.reverse := by rw [reversed]; exact List.mem_cons_self
      exact notInWord_cons (isWord_of_isBlank (blank last (List.mem_reverse.mp member)))

theorem head?_of_blanks {blanks : List Char}
    (blank : ∀ character ∈ blanks, isBlank character = true) :
    blanks.head?.any isWord = false := by
  cases blanks with
  | nil => rfl
  | cons first others => exact isWord_of_isBlank (blank first List.mem_cons_self)

theorem wordsIn_surrounded {before text behind : List Char}
    (blankBefore : ∀ character ∈ before, isBlank character = true)
    (blankBehind : ∀ character ∈ behind, isBlank character = true) :
    wordsIn (before ++ (text ++ behind)) = wordsIn text := by
  rw [wordsIn_append_of_ended _ (notInWord_of_blanks blankBefore), wordsIn_of_blanks blankBefore,
    wordsIn_append _ (head?_of_blanks blankBehind), wordsIn_of_blanks blankBehind]
  simp

@[simp] theorem wordsIn_trim (text : List Char) : wordsIn (trim text) = wordsIn text := by
  obtain ⟨before, behind, shape, blankBefore, blankBehind⟩ := parts_of_trim text
  rw [← wordsIn_surrounded blankBefore blankBehind, ← shape]

theorem mem_of_mem_trim {text : List Char} {character : Char} (member : character ∈ trim text) :
    character ∈ text := by
  obtain ⟨before, behind, shape, _⟩ := parts_of_trim text
  rw [shape]
  exact List.mem_append_right _ (List.mem_append_left _ member)

theorem mem_of_mem_lines {text line : List Char} (listed : line ∈ lines text) {character : Char}
    (member : character ∈ line) : character ∈ text := by
  obtain ⟨_, before, behind, rfl, _⟩ := parts_of_mem_lines listed
  exact List.mem_append_right _ (List.mem_append_left _ member)

/-- Two characters follow each other in a text in one of its parts or where they meet. -/
theorem contains_pair_append (first second : Char) (left right : List Char) :
    contains [first, second] (left ++ right) = true ↔
      contains [first, second] left = true ∨ contains [first, second] right = true ∨
        (left.getLast? = some first ∧ right.head? = some second) := by
  induction left with
  | nil => simp [contains]
  | cons next later induction =>
      cases later with
      | nil =>
          cases right with
          | nil => simp [contains]
          | cons other others =>
              simp only [List.cons_append, List.nil_append, contains, Bool.or_eq_true,
                List.isPrefixOf]
              simp
              grind
      | cons other others =>
          have same : List.isPrefixOf [first, second] (next :: other :: (others ++ right)) =
              List.isPrefixOf [first, second] (next :: other :: others) := by
            simp [List.isPrefixOf]
          have step : ∀ text, contains [first, second] (next :: text) =
              (List.isPrefixOf [first, second] (next :: text) || contains [first, second] text) :=
            fun _ => rfl
          have last : (next :: other :: others).getLast? = (other :: others).getLast? := by simp
          rw [List.cons_append, List.cons_append, step, step, same, Bool.or_eq_true, Bool.or_eq_true,
            last, ← List.cons_append, induction, or_assoc]

end ScriptRegistrar.Text
