import Mathlib.Data.Option.Basic
import ScriptRegistrar.Members
import ScriptRegistrar.Proofs.Text.CharacterClasses
import ScriptRegistrar.Proofs.Text.CursorSteps

/-!
# How members are recognised

Each recogniser of a class body passes at least one character, and begins with a whole word: its
marker, the token that opts out, or `void`.  `virtual` in front of `void` changes nothing that a
recogniser of bare declarations finds, so that such a declaration may be looked for from `void` on.
-/

namespace ScriptRegistrar

open Text Text.Cursor Text.Recogniser

/-- In front of a word character, a boundary is a place outside of words. -/
theorem notInWord_of_isBoundary {cursor : Cursor} (boundary : cursor.isBoundary = true)
    (inside : cursor.ahead.head?.any isWord = true) : NotInWord cursor.passed := by
  simp only [Cursor.isBoundary, Text.isBoundary, inside] at boundary
  simpa [NotInWord] using boundary

/-- A whole word that starts at a boundary. -/
theorem begins_of_word {word : List Char} (isWordText : IsWordText word)
    {cursor behindWord : Cursor} (boundary : cursor.isBoundary = true)
    (literal : cursor.literal? word = some behindWord)
    (stops : behindWord.ahead.head?.any isWord = false) :
    NotInWord cursor.passed ∧ cursor.ahead.takeWhile isWord = word := by
  obtain ⟨ahead, _⟩ := literal?_eq_some_iff.mp literal
  obtain ⟨nonempty, letters⟩ := isWordText
  constructor
  · apply notInWord_of_isBoundary boundary
    cases word with
    | nil => exact (nonempty rfl).elim
    | cons first rest => simp [ahead, letters first List.mem_cons_self]
  · rw [ahead, List.takeWhile_append_of_pos letters]
    cases behind : behindWord.ahead with
    | nil => simp
    | cons next rest =>
        have different : isWord next = false := by simpa [behind] using stops
        simp [different]

/-- A whole word and an opening parenthesis behind it, with blanks between them or without. -/
theorem begins_of_call {word : List Char} (isWordText : IsWordText word)
    {cursor behindWord inside : Cursor} (boundary : cursor.isBoundary = true)
    (literal : cursor.literal? word = some behindWord)
    (opens : behindWord.passBlanks.sign? "(" = some inside) :
    NotInWord cursor.passed ∧ cursor.ahead.takeWhile isWord = word := by
  apply begins_of_word isWordText boundary literal
  obtain ⟨sign, _⟩ := sign?_eq_some_iff.mp opens
  obtain ⟨blanks, _⟩ := across_passBlanks behindWord
  cases run : behindWord.ahead.takeWhile isBlank with
  | nil =>
      rw [blanks, run, sign]
      rfl
  | cons blank others =>
      have isBlank_blank : isBlank blank = true :=
        List.all_eq_true.mp (List.all_takeWhile (p := isBlank) (l := behindWord.ahead)) blank
          (by rw [run]; exact List.mem_cons_self)
      rw [blanks, run, List.cons_append]
      simp [isWord_of_isBlank isBlank_blank]

/-- Blanks that must come end a word. -/
theorem stops_of_blanks? {cursor next : Cursor} (read : cursor.blanks? = some next) :
    cursor.ahead.head?.any isWord = false := by
  obtain ⟨_, first⟩ := across_of_blanks? read
  cases ahead : cursor.ahead.head? with
  | none => rfl
  | some character => exact isWord_of_isBlank (by simpa [ahead] using first)

namespace Handler.Head

/-- A declaration from `void` on. -/
def readVoid? (label : List Char) : Recogniser Head := fun cursor => do
  let result ← cursor.sign? "void"
  let name ← result.blanks?
  let (function, behindName) ← name.word?
  let behind ← behindName.passBlanks.sign? "("
  some (⟨label, function, behind.ahead⟩, behind)

theorem across_of_readVoid? {label : List Char} {cursor next : Cursor} {head : Head}
    (read : readVoid? label cursor = some (head, next)) :
    ∃ rest, Across cursor ("void".toList ++ rest) next := by
  simp only [readVoid?, Option.bind_eq_bind, Option.bind_eq_some_iff] at read
  obtain ⟨result, void, name, blanks, ⟨function, behindName⟩, word, behind, sign, equality⟩ := read
  cases equality
  have first := sign?_eq_some_iff.mp void
  have second := (across_of_blanks? blanks).1
  have third := (across_of_word? word).1
  have fourth := across_passBlanks behindName
  have fifth := sign?_eq_some_iff.mp sign
  exact ⟨_, first.trans (second.trans (third.trans (fourth.trans fifth)))⟩

theorem read?_eq_readVoid? (label : List Char) (cursor : Cursor) :
    read? label cursor =
      readVoid? label (((cursor.sign? "virtual").bind blanks?).getD cursor) := rfl

/-- `virtual` and the blanks behind it lead from a place to the declaration itself. -/
theorem across_virtual (cursor : Cursor) :
    ∃ between, Across cursor between (((cursor.sign? "virtual").bind blanks?).getD cursor) ∧
      (between = [] ∨ ∃ blanks, between = "virtual".toList ++ blanks ∧ blanks ≠ [] ∧
        ∀ character ∈ blanks, isBlank character = true) := by
  cases virtual : cursor.sign? "virtual" with
  | none => exact ⟨[], Across.refl cursor, Or.inl rfl⟩
  | some behind =>
      cases blanks : behind.blanks? with
      | none =>
          refine ⟨[], ?_, Or.inl rfl⟩
          simp only [Option.bind_some, blanks, Option.getD_none]
          exact Across.refl cursor
      | some start =>
          obtain ⟨across, first⟩ := across_of_blanks? blanks
          refine ⟨_, ?_, Or.inr ⟨behind.ahead.takeWhile isBlank, rfl, ?_, ?_⟩⟩
          · simp only [Option.bind_some, blanks, Option.getD_some]
            exact (sign?_eq_some_iff.mp virtual).trans across
          · cases ahead : behind.ahead with
            | nil => simp [ahead] at first
            | cons next rest =>
                have blank : isBlank next = true := by simpa [ahead] using first
                simp [blank]
          · exact List.all_eq_true.mp List.all_takeWhile

theorem across_of_read? {label : List Char} {cursor next : Cursor} {head : Head}
    (read : read? label cursor = some (head, next)) :
    ∃ between, Across cursor between next ∧ between ≠ [] := by
  obtain ⟨before, toStart, _⟩ := across_virtual cursor
  obtain ⟨rest, fromStart⟩ := across_of_readVoid? read
  refine ⟨_, toStart.trans fromStart, ?_⟩
  intro empty
  have nothing := (List.append_eq_nil_iff.mp empty).2
  exact absurd nothing (by simp)

theorem across_of_readMarked? {marker : List Char} {cursor next : Cursor} {head : Head}
    (read : readMarked? marker cursor = some (head, next)) :
    ∃ rest, Across cursor (marker ++ rest) next ∧ rest ≠ [] := by
  simp only [readMarked?, Option.bind_eq_bind, Option.bind_eq_some_iff] at read
  obtain ⟨_, _, behindMarker, literal, inside, opens, behind, closes, declaration⟩ := read
  obtain ⟨between, across, _⟩ := across_of_read? declaration
  have path := (literal?_eq_some_iff.mp literal).trans ((across_passBlanks _).trans
    ((sign?_eq_some_iff.mp opens).trans ((across_passBlanks _).trans
      ((sign?_eq_some_iff.mp closes).trans ((across_passBlanks _).trans across)))))
  exact ⟨_, path, by simp⟩

theorem advances_readMarked? (marker : List Char) : Advances (readMarked? marker) := by
  intro cursor head next read
  obtain ⟨rest, across, nonempty⟩ := across_of_readMarked? read
  exact across.length_ahead_lt (by simp [nonempty])

theorem begins_readMarked? {marker : List Char} (isWordText : IsWordText marker) :
    BeginsWith (· = marker) (readMarked? marker) := by
  rintro cursor ⟨head, next⟩ read
  simp only [readMarked?, Option.bind_eq_bind, Option.bind_eq_some_iff,
    Option.guard_eq_some'] at read
  obtain ⟨_, boundary, behindMarker, literal, inside, opens, _⟩ := read
  exact begins_of_call isWordText boundary literal opens

theorem across_of_readNamed? {marker : List Char} {cursor next : Cursor} {head : Head}
    (read : readNamed? marker cursor = some (head, next)) :
    ∃ rest, Across cursor (marker ++ rest) next ∧ rest ≠ [] := by
  simp only [readNamed?, Option.bind_eq_bind, Option.bind_eq_some_iff] at read
  obtain ⟨_, _, behindMarker, literal, inside, opens, quoted, quote, behindLabel, endQuote, behind,
    closes, declaration⟩ := read
  obtain ⟨between, across, _⟩ := across_of_read? declaration
  have path := (literal?_eq_some_iff.mp literal).trans ((across_passBlanks _).trans
    ((sign?_eq_some_iff.mp opens).trans ((across_passBlanks _).trans
      ((sign?_eq_some_iff.mp quote).trans ((across_passWhile _ _).trans
        ((sign?_eq_some_iff.mp endQuote).trans ((across_passBlanks _).trans
          ((sign?_eq_some_iff.mp closes).trans ((across_passBlanks _).trans across)))))))))
  exact ⟨_, path, by simp⟩

theorem advances_readNamed? (marker : List Char) : Advances (readNamed? marker) := by
  intro cursor head next read
  obtain ⟨rest, across, nonempty⟩ := across_of_readNamed? read
  exact across.length_ahead_lt (by simp [nonempty])

theorem begins_readNamed? {marker : List Char} (isWordText : IsWordText marker) :
    BeginsWith (· = marker) (readNamed? marker) := by
  rintro cursor ⟨head, next⟩ read
  simp only [readNamed?, Option.bind_eq_bind, Option.bind_eq_some_iff,
    Option.guard_eq_some'] at read
  obtain ⟨_, boundary, behindMarker, literal, inside, opens, _⟩ := read
  exact begins_of_call isWordText boundary literal opens

/-- A bare declaration from `void` on. -/
def readBareVoid? : Recogniser Head := fun cursor =>
  if cursor.isBoundary then readVoid? [] cursor else none

theorem advances_readBare? : Advances readBare? := by
  intro cursor head next read
  unfold readBare? at read
  split at read
  · obtain ⟨between, across, nonempty⟩ := across_of_read? read
    exact across.length_ahead_lt nonempty
  · cases read

theorem advances_readBareVoid? : Advances readBareVoid? := by
  intro cursor head next read
  unfold readBareVoid? at read
  split at read
  · obtain ⟨rest, across⟩ := across_of_readVoid? read
    exact across.length_ahead_lt (by simp)
  · cases read

theorem begins_readBareVoid? : BeginsWith (· = "void".toList) readBareVoid? := by
  rintro cursor ⟨head, next⟩ read
  unfold readBareVoid? at read
  split at read
  · rename_i boundary
    simp only [readVoid?, Option.bind_eq_bind, Option.bind_eq_some_iff] at read
    obtain ⟨result, void, name, blanks, _⟩ := read
    exact begins_of_word ⟨by decide, List.all_eq_true.mp rfl⟩ boundary void (stops_of_blanks? blanks)
  · cases read

theorem readBare?_of_readBareVoid? {cursor : Cursor} {result : Head × Cursor}
    (read : readBareVoid? cursor = some result) : readBare? cursor = some result := by
  unfold readBareVoid? at read
  split at read
  · rename_i boundary
    have noVirtual : cursor.sign? "virtual" = none := by
      cases virtual : cursor.sign? "virtual" with
      | none => rfl
      | some behind =>
          simp only [readVoid?, Option.bind_eq_bind, Option.bind_eq_some_iff] at read
          obtain ⟨_, void, _⟩ := read
          have first := (sign?_eq_some_iff.mp virtual).1.symm.trans (sign?_eq_some_iff.mp void).1
          simp at first
    rw [readBare?, if_pos boundary, read?_eq_readVoid?, noVirtual]
    exact read
  · cases read

/-- What is read behind `virtual` is found from the place in front of it. -/
private theorem firstFrom?_of_virtual {passed ahead : List Char} {start : Cursor}
    {result : Head × Cursor} (boundary : (Cursor.mk passed ahead).isBoundary = true)
    (virtual : ∃ between, Across ⟨passed, ahead⟩ between start ∧
      (between = [] ∨ ∃ blanks, between = "virtual".toList ++ blanks ∧ blanks ≠ [] ∧
        ∀ character ∈ blanks, isBlank character = true))
    (read : readVoid? [] start = some result) :
    firstFrom? readBareVoid? passed ahead = some result := by
  obtain ⟨between, ⟨aheadEq, passedEq⟩, shape⟩ := virtual
  obtain ⟨startPassed, startAhead⟩ := start
  simp only at aheadEq passedEq
  subst aheadEq passedEq
  rcases shape with rfl | ⟨blanks, rfl, nonempty, blank⟩
  · have bare : readBareVoid? ⟨passed, startAhead⟩ = some result := by
      rw [readBareVoid?, if_pos (by simpa using boundary)]
      exact read
    exact firstFrom?_eq_some_of_read bare
  · have outside : NotInWord passed := notInWord_of_isBoundary boundary rfl
    have ended : ∀ behind, NotInWord (("virtual".toList ++ blanks).reverse ++ behind) := by
      intro behind
      rw [List.reverse_append, List.append_assoc]
      cases last : blanks.reverse with
      | nil => exact (nonempty (List.reverse_eq_nil_iff.mp last)).elim
      | cons final others =>
          have member : final ∈ blanks.reverse := by rw [last]; exact List.mem_cons_self
          exact notInWord_cons (isWord_of_isBlank (blank final (List.mem_reverse.mp member)))
    have separated : blanks.head?.any isWord = false := by
      cases blanks with
      | nil => rfl
      | cons first others => exact isWord_of_isBlank (blank first List.mem_cons_self)
    have clear : ∀ word ∈ wordsIn ("virtual".toList ++ blanks), ¬ word = "void".toList := by
      rw [wordsIn_append _ separated, wordsIn_of_blanks blank]
      decide
    rw [firstFrom?_append_of_ended begins_readBareVoid? (by decide) startAhead
      (by simpa using ended []) outside clear]
    apply firstFrom?_eq_some_of_read
    have void : startAhead.head?.any isWord = true := by
      simp only [readVoid?, Option.bind_eq_bind, Option.bind_eq_some_iff] at read
      obtain ⟨_, void, _⟩ := read
      have first := (sign?_eq_some_iff.mp void).1
      simp only at first
      rw [first]
      rfl
    rw [readBareVoid?, if_pos (isBoundary_of_word (ended passed) void)]
    exact read

/-- `virtual` and the blanks behind it are passed over by a search that starts at `void`. -/
@[simp] theorem firstFrom?_readBare? (passed ahead : List Char) :
    firstFrom? readBare? passed ahead = firstFrom? readBareVoid? passed ahead := by
  induction ahead generalizing passed with
  | nil =>
      have nothing : ∀ read : Recogniser Head, Advances read → read ⟨passed, []⟩ = none := by
        intro read advances
        cases result : read ⟨passed, []⟩ with
        | none => rfl
        | some pair => exact absurd (advances _ _ _ result) (by simp)
      rw [firstFrom?, firstFrom?, nothing _ advances_readBare?, nothing _ advances_readBareVoid?]
  | cons next rest induction =>
      cases bare : readBare? ⟨passed, next :: rest⟩ with
      | none =>
          have noVoid : readBareVoid? ⟨passed, next :: rest⟩ = none := by
            cases result : readBareVoid? ⟨passed, next :: rest⟩ with
            | none => rfl
            | some pair => exact (readBare?_of_readBareVoid? result).symm.trans bare
          rw [firstFrom?, firstFrom?, bare, noVoid]
          exact induction (next :: passed)
      | some result =>
          rw [firstFrom?_eq_some_of_read bare]
          unfold readBare? at bare
          split at bare
          · rename_i boundary
            rw [read?_eq_readVoid?] at bare
            exact (firstFrom?_of_virtual boundary (across_virtual _) bare).symm
          · cases bare

@[simp] theorem occurrences_readBare? (cursor : Cursor) :
    occurrences readBare? cursor = occurrences readBareVoid? cursor := by
  have same : ∀ cursor, first? readBare? cursor = first? readBareVoid? cursor :=
    fun cursor => firstFrom?_readBare? cursor.passed cursor.ahead
  induction cursor using search_induction advances_readBareVoid? with
  | nothing cursor search =>
      rw [occurrences_eq_nil search, occurrences_eq_nil ((same cursor).trans search)]
  | next cursor head behind search induction =>
      rw [occurrences_eq_cons advances_readBareVoid? search,
        occurrences_eq_cons advances_readBare? ((same cursor).trans search), induction]

end Handler.Head

namespace PropertyDeclaration

theorem across_of_passInitializer {cursor next : Cursor}
    (read : passInitializer cursor = some next) : ∃ between, Across cursor between next := by
  unfold passInitializer at read
  split at read
  · cases read
    exact ⟨_, across_passWhile cursor _⟩
  · split at read
    · exact ⟨_, (across_passWhile cursor _).trans (sign?_eq_some_iff.mp read)⟩
    · cases read
      exact ⟨_, Across.refl cursor⟩

theorem across_of_readDeclarator? {cursor next : Cursor} {name : List Char}
    (read : readDeclarator? cursor = some (name, next)) : ∃ between, Across cursor between next := by
  simp only [readDeclarator?, Option.bind_eq_bind, Option.bind_eq_some_iff] at read
  obtain ⟨_, _, ⟨word, behindName⟩, isWord, behindValue, value, behind, sign, equality⟩ := read
  cases equality
  obtain ⟨between, initializer⟩ := across_of_passInitializer value
  exact ⟨_, (across_passBlanks cursor).trans ((across_of_word? isWord).1.trans
    ((across_passBlanks behindName).trans (initializer.trans (sign?_eq_some_iff.mp sign))))⟩

section

-- Unfolded, the tests on characters make the equation of `readType?` too large to check.
attribute [local irreducible] isTypeChar readDeclarator?

theorem readType?_cons (type passed : List Char) (next : Char) (rest : List Char) :
    readType? type passed (next :: rest) =
      match readDeclarator? ⟨passed, next :: rest⟩ with
      | some (name, behind) => some ((type.reverse, name), behind)
      | none =>
        if isTypeChar next then readType? (next :: type) (next :: passed) rest else none :=
  rfl

end

theorem readType?_of_declarator {type passed name : List Char} {next : Char} {rest : List Char}
    {behind : Cursor} (declarator : readDeclarator? ⟨passed, next :: rest⟩ = some (name, behind)) :
    readType? type passed (next :: rest) = some ((type.reverse, name), behind) := by
  rw [readType?_cons, declarator]

theorem readType?_of_isTypeChar {type passed : List Char} {next : Char} {rest : List Char}
    (noDeclarator : readDeclarator? ⟨passed, next :: rest⟩ = none)
    (continues : isTypeChar next = true) :
    readType? type passed (next :: rest) = readType? (next :: type) (next :: passed) rest := by
  rw [readType?_cons, noDeclarator]
  exact if_pos continues

theorem across_of_readType? {type passed ahead : List Char} {result : List Char × List Char}
    {next : Cursor} (read : readType? type passed ahead = some (result, next)) :
    ∃ between, Across ⟨passed, ahead⟩ between next := by
  induction ahead generalizing type passed with
  | nil => cases read
  | cons character rest induction =>
      cases declarator : readDeclarator? ⟨passed, character :: rest⟩ with
      | some pair =>
          rw [readType?_of_declarator declarator] at read
          cases read
          exact across_of_readDeclarator? declarator
      | none =>
          rw [readType?_cons, declarator] at read
          cases continues : isTypeChar character with
          | false => simp [continues] at read
          | true =>
              simp only [continues, if_true] at read
              obtain ⟨between, ahead, passedEq⟩ := induction read
              exact ⟨character :: between, by simpa using ahead, by simpa using passedEq⟩

theorem across_of_read? {marker : List Char} {cursor next : Cursor} {property : Property}
    (read : read? marker cursor = some (property, next)) :
    ∃ rest, Across cursor (marker ++ rest) next ∧ rest ≠ [] := by
  simp only [read?, Option.bind_eq_bind, Option.bind_eq_some_iff] at read
  obtain ⟨_, _, behindMarker, literal, inside, opens, behind, closes, declaration⟩ := read
  have path := (literal?_eq_some_iff.mp literal).trans ((across_passBlanks _).trans
    ((sign?_eq_some_iff.mp opens).trans ((across_passBlanks _).trans
      ((sign?_eq_some_iff.mp closes).trans (across_passBlanks _)))))
  split at declaration
  · cases declaration
  · rename_i first rest ahead
    simp only [Option.bind_eq_some_iff] at declaration
    obtain ⟨_, _, ⟨⟨type, name⟩, last⟩, typed, equality⟩ := declaration
    simp only [Option.some.injEq, Prod.mk.injEq] at equality
    obtain ⟨_, rfl⟩ := equality
    have toFirst : Across behind.passBlanks [first] ⟨first :: behind.passBlanks.passed, rest⟩ :=
      ⟨ahead, rfl⟩
    obtain ⟨between, across⟩ := across_of_readType? typed
    have whole := path.trans (toFirst.trans across)
    rw [List.append_assoc] at whole
    exact ⟨_, whole, by simp⟩

theorem advances_read? (marker : List Char) : Advances (read? marker) := by
  intro cursor property next read
  obtain ⟨rest, across, nonempty⟩ := across_of_read? read
  exact across.length_ahead_lt (by simp [nonempty])

theorem begins_read? {marker : List Char} (isWordText : IsWordText marker) :
    BeginsWith (· = marker) (read? marker) := by
  rintro cursor ⟨property, next⟩ read
  simp only [read?, Option.bind_eq_bind, Option.bind_eq_some_iff, Option.guard_eq_some'] at read
  obtain ⟨_, boundary, behindMarker, literal, inside, opens, _⟩ := read
  exact begins_of_call isWordText boundary literal opens

end PropertyDeclaration

theorem Members.begins_readToken? {token : List Char} (isWordText : IsWordText token) :
    BeginsWith (· = token) (readToken? token) := by
  rintro cursor ⟨_, next⟩ read
  simp only [readToken?, Option.bind_eq_bind, Option.bind_eq_some_iff,
    Option.guard_eq_some'] at read
  obtain ⟨_, boundary, behind, literal, _, ends, _⟩ := read
  apply begins_of_word isWordText boundary literal
  obtain ⟨_, passed⟩ := literal?_eq_some_iff.mp literal
  have inside : behind.passed.head?.any isWord = true := by
    rw [passed]
    cases last : token.reverse with
    | nil => exact (isWordText.1 (List.reverse_eq_nil_iff.mp last)).elim
    | cons final others =>
        have member : final ∈ token.reverse := by rw [last]; exact List.mem_cons_self
        simp [isWordText.2 final (List.mem_reverse.mp member)]
  simp only [Cursor.isBoundary, Text.isBoundary, inside] at ends
  simpa using ends

end ScriptRegistrar
