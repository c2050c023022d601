import ScriptRegistrar.Proofs.Text.WordSearch

/-!
# Classes of characters

Identifier characters are ASCII and belong to words; blanks never do.  An identifier is therefore
one word, and a word ends where a blank follows it.
-/

namespace ScriptRegistrar.Text

theorem bounds_of_isIdentifierChar {character : Char}
    (identifier : isIdentifierChar character = true) :
    (48 ≤ character.toNat ∧ character.toNat ≤ 57) ∨ (65 ≤ character.toNat ∧ character.toNat ≤ 90) ∨
      character.toNat = 95 ∨ (97 ≤ character.toNat ∧ character.toNat ≤ 122) := by
  delta isIdentifierChar Char.isAlphanum Char.isAlpha Char.isUpper Char.isLower Char.isDigit
    at identifier
  simp only [Bool.or_eq_true, Bool.and_eq_true, decide_eq_true_eq, ge_iff_le,
    UInt32.le_iff_toNat_le] at identifier
  rcases identifier with ((upper | lower) | digit) | rfl
  · exact Or.inr (Or.inl upper)
  · exact Or.inr (Or.inr (Or.inr lower))
  · exact Or.inl digit
  · exact Or.inr (Or.inr (Or.inl rfl))

theorem toNat_lt_of_isIdentifierChar {character : Char}
    (identifier : isIdentifierChar character = true) : character.toNat < 0x80 := by
  have bounds := bounds_of_isIdentifierChar identifier
  omega

theorem isWord_of_isIdentifierChar {character : Char}
    (identifier : isIdentifierChar character = true) : isWord character = true := by
  rw [isWord, if_pos (toNat_lt_of_isIdentifierChar identifier)]
  exact identifier

theorem isBlank_of_isIdentifierChar {character : Char}
    (identifier : isIdentifierChar character = true) : isBlank character = false := by
  have bounds := bounds_of_isIdentifierChar identifier
  cases blank : isBlank character with
  | false => rfl
  | true =>
      simp only [isBlank, Bool.or_eq_true, Bool.and_eq_true, decide_eq_true_eq] at blank
      omega

theorem isIdentifierChar_of_isBlank {character : Char} (blank : isBlank character = true) :
    isIdentifierChar character = false := by
  cases identifier : isIdentifierChar character with
  | false => rfl
  | true =>
      rw [isBlank_of_isIdentifierChar identifier] at blank
      exact Bool.noConfusion blank

/-- The blanks above ASCII. -/
private def widerBlanks : List Nat :=
  [0x85, 0xA0, 0x1680, 0x2000, 0x2001, 0x2002, 0x2003, 0x2004, 0x2005, 0x2006, 0x2007, 0x2008,
    0x2009, 0x200A, 0x2028, 0x2029, 0x202F, 0x205F, 0x3000]

/-- No blank belongs to a word. -/
theorem isWord_of_isBlank {character : Char} (blank : isBlank character = true) :
    isWord character = false := by
  rw [isWord]
  split
  · cases letter : isIdentifierChar character with
    | false => rfl
    | true =>
        rw [isBlank_of_isIdentifierChar letter] at blank
        exact Bool.noConfusion blank
  · rename_i wide
    have listed : character.toNat ∈ widerBlanks := by
      simp only [isBlank, Bool.or_eq_true, Bool.and_eq_true, decide_eq_true_eq] at blank
      simp only [widerBlanks, List.mem_cons, List.not_mem_nil, or_false]
      omega
    have uncovered : ∀ codePoint ∈ widerBlanks, WordRanges.covers codePoint = false := by
      decide +kernel
    exact uncovered _ listed

theorem isBlank_of_isWord {character : Char} (word : isWord character = true) :
    isBlank character = false := by
  cases blank : isBlank character with
  | false => rfl
  | true =>
      rw [isWord_of_isBlank blank] at word
      exact Bool.noConfusion word

@[simp] theorem wordsIn_of_blanks {blanks : List Char}
    (blank : ∀ character ∈ blanks, isBlank character = true) : wordsIn blanks = [] := by
  induction blanks with
  | nil => exact wordsIn_nil
  | cons next rest induction =>
      obtain ⟨first, others⟩ := List.forall_mem_cons.mp blank
      rw [wordsIn_cons_of_not_isWord rest (isWord_of_isBlank first), induction others]

theorem isIdentifierChar_of_isIdentifierStart {character : Char}
    (start : isIdentifierStart character = true) : isIdentifierChar character = true := by
  simp only [isIdentifierStart, isIdentifierChar, Char.isAlphanum, Bool.or_eq_true] at start ⊢
  exact start.imp_left Or.inl

theorem isIdentifierStart_of_isBlank {character : Char} (blank : isBlank character = true) :
    isIdentifierStart character = false := by
  cases start : isIdentifierStart character with
  | false => rfl
  | true =>
      rw [isBlank_of_isIdentifierChar (isIdentifierChar_of_isIdentifierStart start)] at blank
      exact Bool.noConfusion blank

/-- An identifier starts with the start of one and goes on with its characters. -/
theorem isIdentifier_iff {text : List Char} :
    isIdentifier text = true ↔ ∃ first rest, text = first :: rest ∧
      isIdentifierStart first = true ∧ ∀ character ∈ rest, isIdentifierChar character = true := by
  cases text with
  | nil => simp [isIdentifier]
  | cons first rest =>
      simp only [isIdentifier, Bool.and_eq_true, List.all_eq_true]
      constructor
      · rintro ⟨start, others⟩
        exact ⟨first, rest, rfl, start, others⟩
      · rintro ⟨_, _, equality, start, others⟩
        cases equality
        exact ⟨start, others⟩

theorem isIdentifierChar_of_mem {text : List Char} (identifier : isIdentifier text = true)
    {character : Char} (member : character ∈ text) : isIdentifierChar character = true := by
  obtain ⟨first, rest, rfl, start, others⟩ := isIdentifier_iff.mp identifier
  rcases List.mem_cons.mp member with rfl | later
  · exact isIdentifierChar_of_isIdentifierStart start
  · exact others character later

theorem not_mem_of_isIdentifier {text : List Char} (identifier : isIdentifier text = true)
    {sign : Char} (different : isIdentifierChar sign = false) : sign ∉ text := by
  intro member
  have letter := isIdentifierChar_of_mem identifier member
  rw [different] at letter
  exact Bool.noConfusion letter

theorem isWordText_of_isIdentifier {text : List Char} (identifier : isIdentifier text = true) :
    IsWordText text := by
  constructor
  · rintro rfl
    exact Bool.noConfusion identifier
  · exact fun character member =>
      isWord_of_isIdentifierChar (isIdentifierChar_of_mem identifier member)

end ScriptRegistrar.Text
