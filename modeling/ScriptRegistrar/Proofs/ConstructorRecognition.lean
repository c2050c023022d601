import Mathlib.Data.List.Basic
import Mathlib.Data.Option.Basic
import ScriptRegistrar.Constructor
import ScriptRegistrar.Proofs.MemberRecognition

/-!
# How constructors are recognised

The head of a constructor begins with the name of its class and runs up to an opening brace
through words, blanks and parentheses alone.  So it starts behind the last other sign before the
brace, and a brace with no parenthesis since that sign opens no constructor.
-/

namespace ScriptRegistrar.Constructor

open Text Text.Cursor Text.Recogniser

/-- A character that may stand in the head of a constructor before its brace. -/
def isHeadChar (character : Char) : Bool :=
  isWord character || isBlank character || character = '(' || character = ')'

theorem isHeadChar_of_isWord {character : Char} (letter : isWord character = true) :
    isHeadChar character = true := by
  simp [isHeadChar, letter]

theorem isHeadChar_of_isBlank {character : Char} (blank : isBlank character = true) :
    isHeadChar character = true := by
  simp [isHeadChar, blank]

/-- Whether an opening parenthesis in a text stands behind `noexcept`, as the only word before
it. -/
def OpensCondition (text : List Char) : Prop :=
  ∀ left right, text = left ++ '(' :: right → wordsIn left = ["noexcept".toList]

theorem opensCondition_of_not_mem {text : List Char} (noParenthesis : '(' ∉ text) :
    OpensCondition text := by
  rintro left right rfl
  exact (noParenthesis (by simp)).elim

theorem opensCondition_of_only {before behind : List Char}
    (words : wordsIn before = ["noexcept".toList]) (noneBefore : '(' ∉ before)
    (noneBehind : '(' ∉ behind) : OpensCondition (before ++ '(' :: behind) := by
  intro left right equality
  obtain ⟨rfl, _⟩ := (List.append_cons_inj_of_notMem noneBefore noneBehind).mp equality
  exact words

/-- Text without words in front makes no difference. -/
theorem OpensCondition.behind {before text : List Char} (opens : OpensCondition text)
    (noWords : wordsIn before = []) (ended : NotInWord before.reverse)
    (noParenthesis : '(' ∉ before) : OpensCondition (before ++ text) := by
  intro left right equality
  rcases List.append_eq_append_iff.mp equality with ⟨between, rfl, rest⟩ | ⟨between, rfl, rest⟩
  · rw [wordsIn_append_of_ended _ ended, noWords, opens between right rest]
    rfl
  · cases between with
    | nil =>
        rw [List.append_nil] at ended noWords
        have nothing := opens [] right (by simpa using rest.symm)
        simp at nothing
    | cons next others =>
        simp only [List.cons_append, List.cons.injEq] at rest
        exact (noParenthesis (by simp [← rest.1])).elim

/-- Two texts that end at the first sign of a kind are the same. -/
theorem eq_of_first_sign {sign : Char} {left right behind rest : List Char} (notLeft : sign ∉ left)
    (notRight : sign ∉ right) (same : left ++ sign :: behind = right ++ sign :: rest) :
    left = right ∧ behind = rest := by
  have upTo : ∀ {text : List Char}, sign ∉ text → ∀ after : List Char,
      (text ++ sign :: after).takeWhile (· ≠ sign) = text := by
    intro text absent after
    have passes : ∀ character ∈ text, decide (character ≠ sign) = true := by
      intro character member
      exact decide_eq_true (fun equality => absent (equality ▸ member))
    rw [List.takeWhile_append_of_pos passes]
    simp
  have firstParts := congrArg (List.takeWhile (· ≠ sign)) same
  rw [upTo notLeft, upTo notRight] at firstParts
  subst firstParts
  simpa using same

theorem not_mem_of_test {test : Char → Bool} {text : List Char} {sign : Char}
    (holds : ∀ character ∈ text, test character = true) (fails : test sign = false) :
    sign ∉ text := by
  intro member
  rw [holds sign member] at fails
  exact Bool.noConfusion fails

theorem isBlank_of_mem_takeWhile {text : List Char} :
    ∀ character ∈ text.takeWhile isBlank, isBlank character = true :=
  fun _ member => List.all_eq_true.mp List.all_takeWhile _ member

theorem isWord_of_mem_takeWhile {text : List Char} :
    ∀ character ∈ text.takeWhile isWord, isWord character = true :=
  fun _ member => List.all_eq_true.mp List.all_takeWhile _ member

theorem isHeadChar_of_mem_noexcept {blanks : List Char}
    (blank : ∀ character ∈ blanks, isBlank character = true) :
    ∀ character ∈ "noexcept".toList ++ blanks, isHeadChar character = true :=
  List.forall_mem_append.mpr ⟨List.all_eq_true.mp (by decide),
    fun character space => isHeadChar_of_isBlank (blank character space)⟩

theorem wordsIn_noexcept {blanks : List Char}
    (blank : ∀ character ∈ blanks, isBlank character = true) :
    wordsIn ("noexcept".toList ++ blanks) = ["noexcept".toList] := by
  have separated : blanks.head?.any isWord = false := by
    cases blanks with
    | nil => rfl
    | cons next others => exact isWord_of_isBlank (blank next List.mem_cons_self)
  rw [wordsIn_word_append ⟨by decide, List.all_eq_true.mp (by decide)⟩ separated,
    wordsIn_of_blanks blank]

/-- The condition of `noexcept` is a word at most, between parentheses. -/
theorem across_condition {specified last : Cursor}
    (read : (do
      let inside ← specified.sign? "("
      let behind ← ((inside.passBlanks.passWhile isWord).passBlanks).sign? ")"
      some behind.passBlanks) = some last) :
    ∃ condition, Across specified ('(' :: condition) last ∧
      (∀ character ∈ condition, isHeadChar character = true) ∧ '(' ∉ condition := by
  simp only [Option.bind_eq_bind, Option.bind_eq_some_iff] at read
  obtain ⟨inside, opens, closed, closes, equality⟩ := read
  cases equality
  have path := (sign?_eq_some_iff.mp opens).trans ((across_passBlanks inside).trans
    ((across_passWhile _ isWord).trans ((across_passBlanks _).trans
      ((sign?_eq_some_iff.mp closes).trans (across_passBlanks closed)))))
  refine ⟨_ ++ (_ ++ (_ ++ (")".toList ++ _))), path, ?_, ?_⟩
  · intro character member
    simp only [List.mem_append] at member
    rcases member with space | word | space | closing | space
    · exact isHeadChar_of_isBlank (isBlank_of_mem_takeWhile character space)
    · exact isHeadChar_of_isWord (isWord_of_mem_takeWhile character word)
    · exact isHeadChar_of_isBlank (isBlank_of_mem_takeWhile character space)
    · rw [List.mem_singleton.mp closing]
      decide
    · exact isHeadChar_of_isBlank (isBlank_of_mem_takeWhile character space)
  · simp only [List.mem_append, not_or]
    exact ⟨not_mem_of_test isBlank_of_mem_takeWhile (by decide),
      not_mem_of_test isWord_of_mem_takeWhile (by decide),
      not_mem_of_test isBlank_of_mem_takeWhile (by decide), by decide,
      not_mem_of_test isBlank_of_mem_takeWhile (by decide)⟩

theorem across_passException (cursor : Cursor) :
    ∃ between, Across cursor between (passException cursor) ∧
      (∀ character ∈ between, isHeadChar character = true) ∧ OpensCondition between := by
  unfold passException
  split
  · exact ⟨[], Across.refl cursor, by simp, opensCondition_of_not_mem (by simp)⟩
  · rename_i behind keyword
    have specified := (sign?_eq_some_iff.mp keyword).trans (across_passBlanks behind)
    have blank := @isBlank_of_mem_takeWhile behind.ahead
    have letters := isHeadChar_of_mem_noexcept blank
    have noParenthesis : '(' ∉ "noexcept".toList ++ behind.ahead.takeWhile isBlank := by
      simp only [List.mem_append, not_or]
      exact ⟨by decide, not_mem_of_test blank (by decide)⟩
    dsimp only
    cases read : (do
        let inside ← behind.passBlanks.sign? "("
        let behind ← ((inside.passBlanks.passWhile isWord).passBlanks).sign? ")"
        some behind.passBlanks) with
    | none => exact ⟨_, specified, letters, opensCondition_of_not_mem noParenthesis⟩
    | some last =>
        obtain ⟨condition, toLast, conditionLetters, single⟩ := across_condition read
        refine ⟨_, specified.trans toLast, ?_,
          opensCondition_of_only (wordsIn_noexcept blank) noParenthesis single⟩
        exact List.forall_mem_append.mpr
          ⟨letters, List.forall_mem_cons.mpr ⟨by decide, conditionLetters⟩⟩

/-- What the head of a constructor is made of. -/
theorem across_of_readHead? {className : List Char} {cursor start opened next : Cursor}
    (read : readHead? className cursor = some ((start, opened), next)) :
    start = cursor ∧ opened = next ∧ cursor.isBoundary = true ∧
      ∃ blanks inside, Across cursor (className ++ (blanks ++ '(' :: (inside ++ ['\x7b']))) next ∧
        (∀ character ∈ blanks, isBlank character = true) ∧
          (∀ character ∈ inside, isHeadChar character = true) ∧ OpensCondition inside := by
  simp only [readHead?, Option.bind_eq_bind, Option.bind_eq_some_iff, Option.guard_eq_some'] at read
  obtain ⟨_, boundary, name, literal, parenthesis, opens, behind, closes, brace, braced,
    equality⟩ := read
  simp only [Option.some.injEq, Prod.mk.injEq] at equality
  obtain ⟨⟨rfl, rfl⟩, rfl⟩ := equality
  obtain ⟨exception, toException, letters, condition⟩ := across_passException behind.passBlanks
  have path := (literal?_eq_some_iff.mp literal).trans ((across_passBlanks name).trans
    ((sign?_eq_some_iff.mp opens).trans ((across_passBlanks parenthesis).trans
      ((sign?_eq_some_iff.mp closes).trans ((across_passBlanks behind).trans
        (toException.trans (sign?_eq_some_iff.mp braced)))))))
  have first := @isBlank_of_mem_takeWhile parenthesis.ahead
  have second := @isBlank_of_mem_takeWhile behind.ahead
  refine ⟨rfl, rfl, boundary, name.ahead.takeWhile isBlank,
    (parenthesis.ahead.takeWhile isBlank ++ ')' :: behind.ahead.takeWhile isBlank) ++ exception,
    by simpa using path, isBlank_of_mem_takeWhile, ?_, condition.behind ?_ ?_ ?_⟩
  · intro character member
    simp only [List.mem_append, List.mem_cons] at member
    rcases member with (space | rfl | space) | letter
    · exact isHeadChar_of_isBlank (first character space)
    · decide
    · exact isHeadChar_of_isBlank (second character space)
    · exact letters character letter
  · rw [wordsIn_append_cons _ _ (by decide), wordsIn_of_blanks first, wordsIn_of_blanks second]
    rfl
  · rw [List.reverse_append, List.reverse_cons, List.append_assoc]
    cases run : (behind.ahead.takeWhile isBlank).reverse with
    | nil => exact notInWord_cons (by decide)
    | cons last others =>
        have member : last ∈ (behind.ahead.takeWhile isBlank).reverse := by
          rw [run]
          exact List.mem_cons_self
        exact notInWord_cons (isWord_of_isBlank (second last (List.mem_reverse.mp member)))
  · simp only [List.mem_append, List.mem_cons, not_or]
    exact ⟨not_mem_of_test first (by decide), by decide, not_mem_of_test second (by decide)⟩

theorem advances_readHead? (className : List Char) : Advances (readHead? className) := by
  rintro cursor ⟨start, opened⟩ next read
  obtain ⟨_, _, _, blanks, inside, across, _⟩ := across_of_readHead? read
  exact across.length_ahead_lt (by simp)

theorem begins_readHead? {className : List Char} (isWordText : IsWordText className) :
    BeginsWith (· = className) (readHead? className) := by
  rintro cursor ⟨⟨start, opened⟩, next⟩ read
  simp only [readHead?, Option.bind_eq_bind, Option.bind_eq_some_iff, Option.guard_eq_some'] at read
  obtain ⟨_, boundary, name, literal, parenthesis, opens, _⟩ := read
  exact begins_of_call isWordText boundary literal opens

/-- The text of the head of a constructor, from the name of its class up to its brace. -/
def IsFront (className front : List Char) : Prop :=
  ∃ blanks inside, front = className ++ (blanks ++ '(' :: inside) ∧
    (∀ character ∈ blanks, isBlank character = true) ∧
      (∀ character ∈ inside, isHeadChar character = true) ∧ OpensCondition inside

theorem front_of_readHead? {className : List Char} {cursor start opened next : Cursor}
    (read : readHead? className cursor = some ((start, opened), next)) :
    ∃ front, IsFront className front ∧ cursor.ahead = front ++ '\x7b' :: next.ahead ∧
      next.passed = '\x7b' :: (front.reverse ++ cursor.passed) := by
  obtain ⟨_, _, _, blanks, inside, ⟨ahead, passed⟩, blank, letters, condition⟩ :=
    across_of_readHead? read
  exact ⟨_, ⟨blanks, inside, rfl, blank, letters, condition⟩, by simpa using ahead,
    by simpa using passed⟩

theorem IsFront.parenthesis {className front : List Char} (isFront : IsFront className front) :
    '(' ∈ front := by
  obtain ⟨blanks, inside, rfl, _⟩ := isFront
  simp

theorem IsFront.headChars {className front : List Char} (isFront : IsFront className front)
    (isWordText : IsWordText className) : ∀ character ∈ front, isHeadChar character = true := by
  obtain ⟨blanks, inside, rfl, blank, letters, _⟩ := isFront
  intro character member
  simp only [List.mem_append, List.mem_cons] at member
  rcases member with letter | space | rfl | within
  · exact isHeadChar_of_isWord (isWordText.2 character letter)
  · exact isHeadChar_of_isBlank (blank character space)
  · decide
  · exact letters character within

theorem ahead_of_readHead? {className : List Char} (isWordText : IsWordText className)
    {cursor : Cursor} {result : (Cursor × Cursor) × Cursor}
    (read : readHead? className cursor = some result) :
    ∃ front, cursor.ahead = front ++ '\x7b' :: result.2.ahead ∧ '(' ∈ front ∧
      ∀ character ∈ front, isHeadChar character = true := by
  obtain ⟨⟨start, opened⟩, next⟩ := result
  obtain ⟨front, isFront, ahead, _⟩ := front_of_readHead? read
  exact ⟨front, ahead, isFront.parenthesis, isFront.headChars isWordText⟩

theorem not_mem_of_isHeadChar {front : List Char}
    (letters : ∀ character ∈ front, isHeadChar character = true) : '\x7b' ∉ front :=
  fun member => absurd (letters _ member) (by decide)

section

variable {className : List Char} (isWordText : IsWordText className)

include isWordText

/-- No head goes past a sign that may not stand in one. -/
theorem readHead?_of_stopper {passed right rest : List Char} {stopper : Char}
    (noBrace : '\x7b' ∉ right) (member : stopper ∈ right) (stops : isHeadChar stopper = false) :
    readHead? className ⟨passed, right ++ rest⟩ = none := by
  cases read : readHead? className ⟨passed, right ++ rest⟩ with
  | none => rfl
  | some result =>
      obtain ⟨front, ahead, _, letters⟩ := ahead_of_readHead? isWordText read
      have noStopper : stopper ∉ front := by
        intro found
        rw [letters stopper found] at stops
        exact Bool.noConfusion stops
      rcases List.append_eq_append_iff.mp ahead with ⟨between, equality, _⟩ | ⟨between, equality, brace⟩
      · exact (noStopper (by rw [equality]; exact List.mem_append_left _ member)).elim
      · cases between with
        | nil =>
            rw [List.append_nil] at equality
            exact (noStopper (equality ▸ member)).elim
        | cons next others =>
            simp only [List.cons_append, List.cons.injEq] at brace
            exact (noBrace (by rw [equality, ← brace.1]; simp)).elim

theorem readHead?_of_noParenthesis {passed right rest : List Char} (noBrace : '\x7b' ∉ right)
    (noParenthesis : '(' ∉ right) :
    readHead? className ⟨passed, right ++ '\x7b' :: rest⟩ = none := by
  cases read : readHead? className ⟨passed, right ++ '\x7b' :: rest⟩ with
  | none => rfl
  | some result =>
      obtain ⟨front, ahead, parenthesis, letters⟩ := ahead_of_readHead? isWordText read
      obtain ⟨same, _⟩ := eq_of_first_sign noBrace (not_mem_of_isHeadChar letters) ahead
      exact (noParenthesis (same ▸ parenthesis)).elim

theorem readHead?_of_noBrace {passed ahead : List Char} (noBrace : '\x7b' ∉ ahead) :
    readHead? className ⟨passed, ahead⟩ = none := by
  cases read : readHead? className ⟨passed, ahead⟩ with
  | none => rfl
  | some result =>
      obtain ⟨front, aheadEq, _⟩ := ahead_of_readHead? isWordText read
      simp only at aheadEq
      exact (noBrace (by rw [aheadEq]; simp)).elim

theorem skips_of_stopper {stretch : List Char} {stopper : Char}
    (noBrace : '\x7b' ∉ stretch) (ends : stretch.getLast? = some stopper)
    (stops : isHeadChar stopper = false) (passed rest : List Char) :
    Skips (readHead? className) passed stretch rest := by
  apply firstFrom?_append_of_none
  rintro left next right rfl
  apply readHead?_of_stopper isWordText _ _ stops
  · exact fun member => noBrace (List.mem_append_right left member)
  · apply List.mem_of_getLast?
    rw [← ends, List.getLast?_append, List.getLast?_eq_some_getLast (by simp), Option.some_or]

/-- The same for a stretch up to a brace without a parenthesis. -/
theorem skips_of_noParenthesis {stretch : List Char} (noBrace : '\x7b' ∉ stretch)
    (noParenthesis : '(' ∉ stretch) (passed rest : List Char) :
    Skips (readHead? className) passed (stretch ++ ['\x7b']) rest := by
  have shape : stretch ++ ['\x7b'] ++ rest = stretch ++ '\x7b' :: rest := by simp
  have atBrace := @readHead?_of_noParenthesis _ isWordText (stretch.reverse ++ passed) [] rest
    (by simp) (by simp)
  rw [List.nil_append] at atBrace
  rw [Skips, shape, firstFrom?_append_of_none, firstFrom?, atBrace]
  · simp
  · rintro left next right rfl
    exact readHead?_of_noParenthesis isWordText
      (fun member => noBrace (List.mem_append_right left member))
      (fun member => noParenthesis (List.mem_append_right left member))

theorem firstFrom?_of_noBrace {passed ahead : List Char} (noBrace : '\x7b' ∉ ahead) :
    firstFrom? (readHead? className) passed ahead = none := by
  have nowhere := @firstFrom?_append_of_none _ (readHead? className) ahead passed [] ?_
  · rw [List.append_nil] at nowhere
    rw [nowhere, firstFrom?, readHead?_of_noBrace isWordText (by simp)]
  · rintro left next right rfl
    rw [List.append_nil]
    exact readHead?_of_noBrace isWordText fun member => noBrace (List.mem_append_right left member)

end

end ScriptRegistrar.Constructor
