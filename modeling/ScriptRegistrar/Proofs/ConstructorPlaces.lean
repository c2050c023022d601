import ScriptRegistrar.Proofs.ConstructorUpdate

/-!
# Where constructors start

Two heads that end at the same brace start at the same place and have the same name, unless one
of them is named like the exception specifier.  So no head starts inside another, and the
constructor that is found is the one whose head comes first in the text.
-/

namespace ScriptRegistrar

open Text Text.Cursor Text.Recogniser

namespace Constructor

/-- Whether a text may name a class whose constructors are told apart. -/
structure IsClassName (className : List Char) : Prop where
  isWordText : IsWordText className
  notSpecifier : className ≠ "noexcept".toList

/-- Whether the head of a constructor, and not of a destructor, starts at a place of a text. -/
structure StartsAt (className text : List Char) (start : Cursor) : Prop where
  place : start.text = text
  reads : (readHead? className start).isSome = true
  notDestructor : isDestructor start = false

namespace IsFront

variable {className otherName : List Char}

theorem takeWhile_isWord {front : List Char} (isFront : IsFront className front)
    (isWordText : IsWordText className) : front.takeWhile isWord = className := by
  obtain ⟨blanks, inside, rfl, blank, _⟩ := isFront
  rw [List.takeWhile_append_of_pos isWordText.2]
  cases blanks with
  | nil => simp [show isWord '(' = false by decide]
  | cons space others => simp [isWord_of_isBlank (blank space List.mem_cons_self)]

theorem wordsIn_name {blanks : List Char} (isWordText : IsWordText className)
    (blank : ∀ character ∈ blanks, isBlank character = true) :
    wordsIn (className ++ blanks) = [className] := by
  rw [wordsIn_word_append isWordText ?_, wordsIn_of_blanks blank]
  cases blanks with
  | nil => rfl
  | cons space others => simp [isWord_of_isBlank (blank space List.mem_cons_self)]

theorem not_mem_name {blanks : List Char} (isWordText : IsWordText className)
    (blank : ∀ character ∈ blanks, isBlank character = true) : '(' ∉ className ++ blanks := by
  simp only [List.mem_append, not_or]
  exact ⟨not_mem_of_test isWordText.2 (by decide), not_mem_of_test blank (by decide)⟩

/-- No head ends with another head that starts behind a character of it. -/
theorem eq_nil_of_append {gap front : List Char} (isName : IsClassName className)
    (otherIsName : IsClassName otherName) (isFront : IsFront className (gap ++ front))
    (isInner : IsFront otherName front) (ended : NotInWord gap.reverse) : gap = [] := by
  obtain ⟨blanks, inside, equality, blank, _, condition⟩ := isFront
  obtain ⟨innerBlanks, innerInside, rfl, innerBlank, _, _⟩ := isInner
  have noParenthesis := not_mem_name isName.isWordText blank
  have noneInner := not_mem_name otherIsName.isWordText innerBlank
  have innerWords := wordsIn_name otherIsName.isWordText innerBlank
  by_cases parenthesis : '(' ∈ gap
  · -- The inner name stands behind the parenthesis, so that the specifier is its only word.
    obtain ⟨first, second, rfl, notFirst⟩ := List.eq_append_cons_of_mem parenthesis
    have whole : (className ++ blanks) ++ '(' :: inside =
        first ++ '(' :: (second ++ (otherName ++ (innerBlanks ++ '(' :: innerInside))) := by
      simpa using equality.symm
    obtain ⟨_, rfl⟩ := eq_of_first_sign noParenthesis notFirst whole
    have words := condition (second ++ (otherName ++ innerBlanks)) innerInside (by simp)
    rw [List.reverse_append, List.reverse_cons, List.append_assoc] at ended
    rw [wordsIn_append_of_ended _ ended.of_append, innerWords] at words
    have last := congrArg List.getLast? words
    simp only [List.getLast?_append, List.getLast?_singleton, Option.some_or,
      Option.some.injEq] at last
    exact (otherIsName.notSpecifier last).elim
  · -- Both names stand in front of the same parenthesis, so that the words are the same.
    have whole : (className ++ blanks) ++ '(' :: inside =
        (gap ++ (otherName ++ innerBlanks)) ++ '(' :: innerInside := by
      simpa using equality.symm
    have noneWhole : '(' ∉ gap ++ (otherName ++ innerBlanks) :=
      fun member => (List.mem_append.mp member).elim parenthesis noneInner
    obtain ⟨same, _⟩ := eq_of_first_sign noParenthesis noneWhole whole
    have words := wordsIn_append_of_ended (otherName ++ innerBlanks) ended
    rw [innerWords, ← same, wordsIn_name isName.isWordText blank] at words
    cases gap with
    | nil => rfl
    | cons next others =>
        obtain ⟨letter, letters, name⟩ := List.exists_cons_of_ne_nil isName.isWordText.1
        have isLetter := isName.isWordText.2 letter (name ▸ List.mem_cons_self)
        rw [name, List.cons_append, List.cons_append, List.cons.injEq] at same
        rw [← same.1, wordsIn_cons_of_isWord others isLetter] at words
        simp at words

end IsFront

variable {className otherName text : List Char}

theorem apart_readHead? (isName : IsClassName className) : Apart (readHead? className) := by
  rintro cursor ⟨start, opened⟩ next whole between inner read toNext toInner nonempty shorter
  cases readInner : readHead? className inner with
  | none => rfl
  | some result =>
      obtain ⟨⟨innerStart, innerOpened⟩, innerNext⟩ := result
      obtain ⟨front, isFront, ahead, _⟩ := front_of_readHead? read
      obtain ⟨innerFront, isInner, innerAhead, _⟩ := front_of_readHead? readInner
      have wholeEq : whole = front ++ ['\x7b'] := by
        have same := toNext.1.symm.trans ahead
        rw [← List.singleton_append, ← List.append_assoc] at same
        exact List.append_cancel_right same
      obtain ⟨gap, parts, fromInner⟩ := toInner.split toNext (Nat.le_of_lt shorter)
      rcases List.eq_nil_or_concat gap with rfl | ⟨rest, last, rfl⟩
      · rw [parts] at shorter
        simp at shorter
      · rw [List.concat_eq_append] at parts fromInner
        have frontEq : front = between ++ rest ∧ ['\x7b'] = [last] := by
          have same := wholeEq.symm.trans parts
          rw [← List.append_assoc] at same
          exact List.append_inj' same rfl
        obtain ⟨rfl, brace⟩ := frontEq
        cases brace
        have noBrace := not_mem_of_isHeadChar (isFront.headChars isName.isWordText)
        have innerEq := fromInner.1.symm.trans innerAhead
        rw [List.append_assoc, List.singleton_append] at innerEq
        obtain ⟨rfl, _⟩ := eq_of_first_sign (fun member => noBrace (List.mem_append_right _ member))
          (not_mem_of_isHeadChar (isInner.headChars isName.isWordText)) innerEq
        have outside := (begins_readHead? isName.isWordText _ _ readInner).1
        rw [toInner.2] at outside
        exact (nonempty (isFront.eq_nil_of_append isName isName isInner outside.of_append)).elim

theorem offset_le_of_startsAt (isName : IsClassName className) {constructor : Constructor}
    (found : find? className text = some constructor) {start : Cursor}
    (starts : StartsAt className text start) : constructor.start.offset ≤ start.offset := by
  simp only [find?, Option.bind_eq_bind, Option.bind_eq_some_iff] at found
  obtain ⟨⟨_, opened⟩, first, ⟨body, behind⟩, _, equality⟩ := found
  cases equality
  obtain ⟨before, place, next, across, read, least⟩ := first_of_find?_occurrences
    (goesForward_readHead? className) (advances_readHead? className) (apart_readHead? isName) first
  obtain ⟨rfl, rfl, _⟩ := across_of_readHead? read
  obtain ⟨⟨⟨otherStart, otherOpened⟩, otherNext⟩, reads⟩ := Option.isSome_iff_exists.mp starts.reads
  obtain ⟨rfl, rfl, _⟩ := across_of_readHead? reads
  have toOther : Across (Cursor.start text) otherStart.passed.reverse otherStart :=
    ⟨starts.place.symm, by simp [Cursor.start]⟩
  have shorter := least _ _ _ _ toOther reads (by simp [starts.notDestructor])
  obtain ⟨gap, longer, further⟩ := across.split toOther shorter
  simp [Cursor.offset, further.2]

namespace StandsIn

theorem startsAt {constructor : Constructor} (stands : StandsIn className text constructor) :
    StartsAt className text constructor.start where
  place := stands.start.1.symm
  reads := by rw [stands.head]; rfl
  notDestructor := stands.notDestructor

/-- Two constructors with the same opening brace are of the same class. -/
theorem name_eq_of_opened_eq {first second : Constructor} (isName : IsClassName className)
    (otherIsName : IsClassName otherName) (stands : StandsIn className text first)
    (otherStands : StandsIn otherName text second) (same : first.opened = second.opened) :
    className = otherName := by
  obtain ⟨front, isFront, _, passed⟩ := front_of_readHead? stands.head
  obtain ⟨otherFront, isOther, _, otherPassed⟩ := front_of_readHead? otherStands.head
  have outside := (begins_readHead? isName.isWordText _ _ stands.head).1
  have otherOutside := (begins_readHead? otherIsName.isWordText _ _ otherStands.head).1
  have parts : first.start.passed.reverse ++ front =
      second.start.passed.reverse ++ otherFront := by
    have reversed := passed.symm.trans (same ▸ otherPassed)
    simp only [List.cons.injEq, true_and] at reversed
    simpa using congrArg List.reverse reversed
  have sameFront : front = otherFront := by
    rcases List.append_eq_append_iff.mp parts with ⟨gap, longer, rfl⟩ | ⟨gap, longer, rfl⟩
    · have reversed : second.start.passed = gap.reverse ++ first.start.passed := by
        simpa using congrArg List.reverse longer
      rw [isFront.eq_nil_of_append isName otherIsName isOther (reversed ▸ otherOutside).of_append,
        List.nil_append]
    · have reversed : first.start.passed = gap.reverse ++ second.start.passed := by
        simpa using congrArg List.reverse longer
      rw [isOther.eq_nil_of_append otherIsName isName isFront (reversed ▸ outside).of_append,
        List.nil_append]
  rw [← isFront.takeWhile_isWord isName.isWordText, sameFront,
    isOther.takeWhile_isWord otherIsName.isWordText]

end StandsIn

end Constructor

end ScriptRegistrar
