import ScriptRegistrar.Proofs.Text.Trimming
import ScriptRegistrar.Proofs.TypeNormalForm

/-!
# Where a sign stood in a type

A normal form has nothing in the place of a reference or a pointer sign, while it has a blank in
the place of the qualifier.  If no blank stands beside a sign, then what it held apart is read as
one text.  Two words become one, which may also make the qualifier of them or hide it, and between
other characters a blank is missing that would be written if it had been read.
-/

namespace ScriptRegistrar.TypeText

open Text

/-- A text without its signs. -/
def unsigned (text : List Char) : List Char :=
  text.filter (!isReferenceSign ·)

/-- Whether one text ends and another one starts with a character that satisfies a test. -/
def meets (test : Char → Bool) (left right : List Char) : Bool :=
  left.getLast?.any test && right.head?.any test

/-- A character that a blank may be written beside. -/
def isLoose (character : Char) : Bool :=
  !isBlank character && !isTight character

/-- Whether two parts of a type need a blank between them: without their signs both are words
there, or what is left without the qualifier meets with characters that a blank is kept between. -/
def needsBlank (left right : List Char) : Bool :=
  meets isIdentifierChar (unsigned left) (unsigned right) ||
    meets isLoose (dropQualifier [] (unsigned left)) (dropQualifier [] (unsigned right))

theorem isLoose_of_isIdentifierChar {character : Char}
    (letter : isIdentifierChar character = true) : isLoose character = true := by
  rw [isLoose, isBlank_of_isIdentifierChar letter, isTight_of_isIdentifierChar letter]
  rfl

theorem normalForm_eq (text : List Char) :
    normalForm text = tighten none false (dropQualifier [] (unsigned text)) := rfl

@[simp] theorem unsigned_append (left right : List Char) :
    unsigned (left ++ right) = unsigned left ++ unsigned right :=
  List.filter_append _ _

theorem unsigned_of_signs {signs : List Char}
    (areSigns : ∀ sign ∈ signs, isReferenceSign sign = true) : unsigned signs = [] :=
  List.filter_eq_nil_iff.mpr fun sign member => by simp [areSigns sign member]

theorem unsigned_of_letters {word : List Char}
    (letters : ∀ character ∈ word, isIdentifierChar character = true) : unsigned word = word :=
  List.filter_eq_self.mpr fun character member => by
    simp [isReferenceSign_of_isIdentifierChar (letters character member)]

theorem dropQualifier_append_of_getLast? {left : List Char}
    (apart : left.getLast?.any isIdentifierChar = false) (right : List Char) :
    dropQualifier [] (left ++ right) = dropQualifier [] left ++ dropQualifier [] right := by
  rcases List.eq_nil_or_concat left with rfl | ⟨front, last, rfl⟩
  · simp [dropQualifier]
  · have separates : isIdentifierChar last = false := by simpa using apart
    have cut : ∀ rest, dropQualifier [] (front ++ last :: rest) =
        dropQualifier [] front ++ last :: dropQualifier [] rest := by
      intro rest
      rw [dropQualifier_append_of_head? (by simpa using separates)]
      simp [dropQualifier, separates]
    have alone : dropQualifier [] (front ++ [last]) = dropQualifier [] front ++ [last] := cut []
    rw [List.concat_eq_append, alone, List.append_assoc, List.append_assoc]
    exact cut right

theorem dropQualifier_append_of_apart {left right : List Char}
    (apart : meets isIdentifierChar left right = false) :
    dropQualifier [] (left ++ right) = dropQualifier [] left ++ dropQualifier [] right := by
  rcases Bool.and_eq_false_iff.mp apart with onLeft | onRight
  · exact dropQualifier_append_of_getLast? onLeft right
  · exact dropQualifier_append_of_head? onRight [] left

theorem dropQualifier_spaced (left right : List Char) :
    dropQualifier [] (left ++ ' ' :: ' ' :: right) =
      dropQualifier [] left ++ ' ' :: ' ' :: dropQualifier [] right := by
  rw [dropQualifier_append_of_head? rfl]
  rfl

theorem exists_last_word (text : List Char) :
    ∃ front word, text = front ++ word ∧ front.getLast?.any isIdentifierChar = false ∧
      ∀ character ∈ word, isIdentifierChar character = true := by
  obtain ⟨word, shape, letters⟩ := dropEndWhile_append isIdentifierChar text
  exact ⟨_, word, shape, getLast?_dropEndWhile isIdentifierChar text, letters⟩

theorem exists_first_word (text : List Char) :
    ∃ word rest, text = word ++ rest ∧ rest.head?.any isIdentifierChar = false ∧
      ∀ character ∈ word, isIdentifierChar character = true :=
  ⟨_, _, List.takeWhile_append_dropWhile.symm, head?_any_dropWhile isIdentifierChar text,
    fun _ member => List.all_eq_true.mp List.all_takeWhile _ member⟩

/-- The characters of a text that are no blanks. -/
def solids (text : List Char) : List Char :=
  text.filter (!isBlank ·)

@[simp] theorem solids_append (left right : List Char) :
    solids (left ++ right) = solids left ++ solids right :=
  List.filter_append _ _

/-- `tighten` writes every character that is no blank. -/
@[simp] theorem solids_tighten (last : Option Char) (blankSeen : Bool) (text : List Char) :
    solids (tighten last blankSeen text) = solids text := by
  induction text generalizing last blankSeen with
  | nil => rfl
  | cons next rest induction =>
      have space : isBlank ' ' = true := by decide
      rw [tighten]
      split
      · rename_i blank
        have skipped : solids (next :: rest) = solids rest := by
          simp [solids, blank]
        rw [skipped, induction]
      · rename_i solid
        have kept : ∀ text, solids (next :: text) = next :: solids text := by
          simp [solids, solid]
        have skipped : ∀ text, solids (' ' :: text) = solids text := by
          simp [solids, space]
        split
        · rw [skipped, kept, kept, induction]
        · rw [kept, kept, induction]

section

variable {test : Char → Bool} (shows : ∀ character, test character = true →
  isBlank character = false ∧ isIdentifierChar character = false ∧ isReferenceSign character = false)

include shows

theorem filter_tighten (last : Option Char) (blankSeen : Bool) (text : List Char) :
    (tighten last blankSeen text).filter test = text.filter test := by
  have ofSolids : ∀ text : List Char, text.filter test = (solids text).filter test := by
    intro text
    rw [solids, List.filter_filter]
    refine List.filter_congr fun character _ => ?_
    cases tested : test character with
    | false => rfl
    | true => simp [(shows character tested).1]
  rw [ofSolids, solids_tighten, ← ofSolids]

theorem filter_dropQualifier {run : List Char}
    (letters : ∀ character ∈ run, isIdentifierChar character = true) (text : List Char) :
    (dropQualifier run text).filter test = text.filter test := by
  have hides : ∀ {character}, isIdentifierChar character = true → test character = false := by
    intro character letter
    cases tested : test character with
    | false => rfl
    | true =>
        rw [(shows character tested).2.1] at letter
        exact Bool.noConfusion letter
  have space : test ' ' = false := by
    cases tested : test ' ' with
    | false => rfl
    | true => exact Bool.noConfusion (shows ' ' tested).1
  have ofRun : ∀ {run : List Char}, (∀ character ∈ run, isIdentifierChar character = true) →
      (closeRun run).filter test = [] := by
    intro run letters
    unfold closeRun
    split
    · simp [space]
    · exact List.filter_eq_nil_iff.mpr fun character member => by
        simp [hides (letters character (List.mem_reverse.mp member))]
  induction text generalizing run with
  | nil => exact ofRun letters
  | cons next rest induction =>
      rw [dropQualifier]
      split
      · rename_i letter
        rw [induction (List.forall_mem_cons.mpr ⟨letter, letters⟩),
          List.filter_cons_of_neg (by simp [hides letter])]
      · rw [List.filter_append, ofRun letters, List.nil_append, List.filter_cons,
          List.filter_cons, @induction [] (by simp)]

theorem filter_normalForm (text : List Char) :
    (normalForm text).filter test = text.filter test := by
  rw [normalForm_eq, filter_tighten shows, filter_dropQualifier shows (by simp), unsigned,
    List.filter_filter]
  refine List.filter_congr fun character _ => ?_
  cases tested : test character with
  | false => rfl
  | true => simp [(shows character tested).2.2]

end

/-- How many characters of a word a normal form has. -/
def weight (word : List Char) : Nat :=
  if word = qualifier then 0 else word.length

theorem weight_cases (word : List Char) :
    (word ≠ qualifier ∧ weight word = word.length) ∨
      (word = qualifier ∧ weight word = 0 ∧ word.length = 5) := by
  by_cases isQualifier : word = qualifier
  · exact Or.inr ⟨isQualifier, if_pos isQualifier, isQualifier ▸ rfl⟩
  · exact Or.inl ⟨isQualifier, if_neg isQualifier⟩

theorem length_solids_dropQualifier {word : List Char}
    (letters : ∀ character ∈ word, isIdentifierChar character = true) :
    (solids (dropQualifier [] word)).length = weight word := by
  have allKept : solids word = word := List.filter_eq_self.mpr fun character member => by
    simp [isBlank_of_isIdentifierChar (letters character member)]
  rw [dropQualifier_of_letters letters, weight]
  split
  · rfl
  · rw [allKept]

theorem stateBehind_concat (last : Option Char) (blankSeen : Bool) (front : List Char)
    (final : Char) :
    stateBehind last blankSeen (front ++ [final]) =
      if isBlank final then ((stateBehind last blankSeen front).1, true) else (some final, false) := by
  induction front generalizing last blankSeen with
  | nil => rfl
  | cons next rest induction =>
      rw [List.cons_append, stateBehind, stateBehind]
      split
      · exact induction _ _
      · exact induction _ _

theorem tighten_eq_iff (last : Option Char) (text : List Char) :
    tighten last false text = tighten last true text ↔
      text.head?.any (fun next => !isBlank next && keepsBlank last next) = false := by
  cases text with
  | nil => simp [tighten]
  | cons next rest =>
      rw [tighten, tighten]
      by_cases blank : isBlank next = true
      · simp [blank]
      · cases keeps : keepsBlank last next with
        | false => simp [blank, keeps]
        | true => simp [blank, keeps]

/-- Blanks between two texts make a difference exactly if the texts meet with loose characters. -/
theorem tighten_spaced_iff (left right : List Char) :
    tighten none false (left ++ right) = tighten none false (left ++ ' ' :: ' ' :: right) ↔
      meets isLoose left right = false := by
  have blanksRead : ∀ last blankSeen, tighten last blankSeen (' ' :: ' ' :: right) =
      tighten last true right := fun _ _ => rfl
  rw [tighten_append, tighten_append none false left (' ' :: ' ' :: right), blanksRead,
    List.append_cancel_left_eq]
  rcases List.eq_nil_or_concat left with rfl | ⟨front, final, rfl⟩
  · rw [stateBehind, tighten_eq_iff]
    cases right <;> simp [meets, keepsBlank]
  · rw [List.concat_eq_append, stateBehind_concat]
    by_cases blank : isBlank final = true
    · simp [blank, meets, isLoose]
    · rw [if_neg blank, tighten_eq_iff]
      have loose : isLoose final = !isTight final := by simp [isLoose, blank]
      cases right with
      | nil => simp [meets]
      | cons next rest =>
          simp only [meets, keepsBlank, List.getLast?_concat, List.head?_cons, Option.any_some]
          rw [loose, isLoose, Bool.and_left_comm]

theorem normalForm_append_signs (text : List Char) {signs : List Char}
    (areSigns : ∀ sign ∈ signs, isReferenceSign sign = true) :
    normalForm (text ++ signs) = normalForm text := by
  simp [normalForm_eq, unsigned_of_signs areSigns]

/-- Neither blanks nor signs show at the end of a type. -/
theorem normalForm_append_of_blank_or_sign (text : List Char) {trailing : List Char}
    (hidden : ∀ character ∈ trailing,
      isBlank character = true ∨ isReferenceSign character = true) :
    normalForm (text ++ trailing) = normalForm text := by
  induction trailing generalizing text with
  | nil => rw [List.append_nil]
  | cons next rest induction =>
      obtain ⟨first, others⟩ := List.forall_mem_cons.mp hidden
      rw [← List.singleton_append, ← List.append_assoc, induction (text ++ [next]) others]
      rcases first with blank | sign
      · exact normalForm_append_blank text blank
      · exact normalForm_append_signs text (List.forall_mem_singleton.mpr sign)

/-- A word other than the qualifier shows in the normal form of the text it is put behind. -/
theorem normalForm_append_word_ne {word : List Char} (nonempty : word ≠ [])
    (letters : ∀ character ∈ word, isIdentifierChar character = true) (different : word ≠ qualifier)
    (text : List Char) : normalForm (text ++ word) ≠ normalForm text := by
  obtain ⟨front, last, shape, frontEnds, lastLetters⟩ := exists_last_word (unsigned text)
  intro same
  have counts := congrArg (fun text => (solids text).length) same
  simp only [normalForm_eq, solids_tighten, unsigned_append, unsigned_of_letters letters, shape,
    List.append_assoc, dropQualifier_append_of_getLast? frontEnds, solids_append,
    List.length_append, length_solids_dropQualifier lastLetters,
    length_solids_dropQualifier (List.forall_mem_append.mpr ⟨lastLetters, letters⟩)] at counts
  have size : 0 < word.length := List.length_pos_iff.mpr nonempty
  have wholeSize : (last ++ word).length = last.length + word.length := List.length_append
  rcases weight_cases (last ++ word) with whole | whole <;>
    rcases weight_cases last with left | left
  · omega
  · omega
  · have noLast : last = [] := List.length_eq_zero_iff.mp (by omega)
    exact different (by simpa [noLast] using whole.1)
  · omega

/-- Two words that run into each other never give the same as two words apart. -/
theorem tighten_dropQualifier_ne {left right : List Char}
    (touching : meets isIdentifierChar left right = true) :
    tighten none false (dropQualifier [] (left ++ right)) ≠
      tighten none false (dropQualifier [] (left ++ ' ' :: ' ' :: right)) := by
  obtain ⟨front, word, rfl, frontEnds, letters⟩ := exists_last_word left
  obtain ⟨other, rest, rfl, restStarts, otherLetters⟩ := exists_first_word right
  obtain ⟨onLeft, onRight⟩ := Bool.and_eq_true_iff.mp touching
  have wordNonempty : word ≠ [] := by
    rintro rfl
    simp [frontEnds] at onLeft
  have otherNonempty : other ≠ [] := by
    rintro rfl
    simp [restStarts] at onRight
  intro same
  have merged : dropQualifier [] (front ++ word ++ (other ++ rest)) =
      dropQualifier [] front ++ (dropQualifier [] (word ++ other) ++ dropQualifier [] rest) := by
    rw [List.append_assoc, dropQualifier_append_of_getLast? frontEnds, ← List.append_assoc word,
      dropQualifier_append_of_head? restStarts]
  have spaced : dropQualifier [] (front ++ word ++ ' ' :: ' ' :: (other ++ rest)) =
      dropQualifier [] front ++ dropQualifier [] word ++
        ' ' :: ' ' :: (dropQualifier [] other ++ dropQualifier [] rest) := by
    rw [dropQualifier_spaced, dropQualifier_append_of_getLast? frontEnds,
      dropQualifier_append_of_head? restStarts]
  rw [merged, spaced] at same
  -- Neither side has the qualifier, or the two would not have equally many characters.
  have counts := congrArg (fun text => (solids text).length) same
  have space : ∀ text, solids (' ' :: text) = solids text := fun _ => rfl
  simp only [solids_tighten, solids_append, space, List.length_append,
    length_solids_dropQualifier letters, length_solids_dropQualifier otherLetters,
    length_solids_dropQualifier (List.forall_mem_append.mpr ⟨letters, otherLetters⟩)] at counts
  have wordSize : 0 < word.length := List.length_pos_iff.mpr wordNonempty
  have otherSize : 0 < other.length := List.length_pos_iff.mpr otherNonempty
  have unqualified : word ++ other ≠ qualifier ∧ word ≠ qualifier ∧ other ≠ qualifier := by
    have wholeSize : (word ++ other).length = word.length + other.length := List.length_append
    rcases weight_cases (word ++ other) with whole | whole <;>
      rcases weight_cases word with left | left <;> rcases weight_cases other with right | right
    · exact ⟨whole.1, left.1, right.1⟩
    all_goals omega
  rw [dropQualifier_of_letters letters, dropQualifier_of_letters otherLetters,
    dropQualifier_of_letters (List.forall_mem_append.mpr ⟨letters, otherLetters⟩),
    if_neg unqualified.1, if_neg unqualified.2.1, if_neg unqualified.2.2, List.append_assoc word,
    ← List.append_assoc, tighten_spaced_iff] at same
  obtain ⟨final, wordEnds⟩ := Option.isSome_iff_exists.mp (List.getLast?_isSome.mpr wordNonempty)
  obtain ⟨next, later, rfl⟩ := List.exists_cons_of_ne_nil otherNonempty
  have finalLoose := isLoose_of_isIdentifierChar (letters final (List.mem_of_getLast? wordEnds))
  have nextLoose := isLoose_of_isIdentifierChar (otherLetters next List.mem_cons_self)
  simp [meets, wordEnds, finalLoose, nextLoose] at same

/-- Blanks around a sign make no difference exactly if no blank is needed there. -/
theorem normalForm_spaced_iff {sign : Char} (isSign : isReferenceSign sign = true)
    (left right : List Char) :
    normalForm (left ++ sign :: right) = normalForm (left ++ ' ' :: sign :: ' ' :: right) ↔
      needsBlank left right = false := by
  have plain : unsigned (left ++ sign :: right) = unsigned left ++ unsigned right := by
    simp [unsigned, isSign]
  have spaced : unsigned (left ++ ' ' :: sign :: ' ' :: right) =
      unsigned left ++ ' ' :: ' ' :: unsigned right := by
    have space : isReferenceSign ' ' = false := by decide
    simp [unsigned, isSign, space]
  rw [normalForm_eq, normalForm_eq, plain, spaced, needsBlank]
  cases touching : meets isIdentifierChar (unsigned left) (unsigned right) with
  | true => simpa using tighten_dropQualifier_ne touching
  | false =>
      rw [dropQualifier_append_of_apart touching, dropQualifier_spaced, tighten_spaced_iff,
        Bool.false_or]

end ScriptRegistrar.TypeText
