import ScriptRegistrar.Proofs.MemberRecognition
import ScriptRegistrar.Proofs.TypeJoints

/-!
# How property declarations are recognised

The type of a property is the shortest text that leaves a declarator behind it.  No declarator
begins inside a run of type characters that goes on with a name, because whatever word of it comes
next, another character of the run or of the name follows.  So all of the run is the type.  The
other way round, what is read consists of type characters as far as the initializer or, if there is
none, the semicolon.
-/

namespace ScriptRegistrar.PropertyDeclaration

open Text Text.Cursor Text.Recogniser

theorem isTypeChar_of_isWord {character : Char} (word : isWord character = true) :
    isTypeChar character = true := by
  simp [isTypeChar, word]

theorem isTypeChar_of_isBlank {character : Char} (blank : isBlank character = true) :
    isTypeChar character = true := by
  simp [isTypeChar, blank]

theorem exists_first_of_isWordText {word : List Char} (isWordText : IsWordText word) :
    ∃ first others, word = first :: others ∧ isWord first = true ∧ isBlank first = false := by
  obtain ⟨first, others, rfl⟩ := List.exists_cons_of_ne_nil isWordText.1
  have letter := isWordText.2 first List.mem_cons_self
  exact ⟨first, others, rfl, letter, isBlank_of_isWord letter⟩

/-- The text of an initializer, as far as it is read. -/
inductive IsValue : List Char → Prop where
  | none : IsValue []
  | equals {value : List Char} (ends : ';' ∉ value) : IsValue ('=' :: value)
  | braces {inside : List Char} (ends : '\x7d' ∉ inside) :
      IsValue ('\x7b' :: (inside ++ ['\x7d']))

theorem IsValue.head?_any_isTypeChar {value : List Char} (isValue : IsValue value)
    (rest : List Char) : (value ++ ';' :: rest).head?.any isTypeChar = false := by
  cases isValue <;> rfl

/-- Reads what stands behind the name of a property. -/
def readEnd? (cursor : Cursor) : Option Cursor :=
  (passInitializer cursor.passBlanks).bind (·.sign? ";")

theorem readDeclarator?_eq (cursor : Cursor) : readDeclarator? cursor =
    if cursor.passBlanks.isBoundary then
      cursor.passBlanks.word?.bind fun found => (readEnd? found.2).map (found.1, ·)
    else none := by
  rw [readDeclarator?]
  cases cursor.passBlanks.isBoundary with
  | false => rfl
  | true =>
      cases cursor.passBlanks.word? with
      | none => rfl
      | some found =>
          simp only [readEnd?, Option.bind_eq_bind, guard, if_true, Option.pure_def, Option.bind_some]
          cases passInitializer found.2.passBlanks with
          | none => rfl
          | some behindValue =>
              rw [Option.bind_some, Option.bind_some]
              cases behindValue.sign? ";" <;> rfl

theorem value_of_passInitializer {cursor next : Cursor}
    (passes : passInitializer cursor = some next) :
    ∃ value, Across cursor value next ∧ IsValue value := by
  have absent : ∀ sign : Char, ∀ text : List Char, sign ∉ text.takeWhile (· ≠ sign) := by
    intro sign text member
    have different := List.all_eq_true.mp List.all_takeWhile _ member
    simp at different
  unfold passInitializer at passes
  split at passes
  · rename_i equals
    cases passes
    have across := across_passWhile cursor (· ≠ ';')
    obtain ⟨passed, ahead⟩ := cursor
    cases ahead with
    | nil => cases equals
    | cons first rest =>
        have isEquals : first = '=' := by simpa [nextIs] using equals
        subst isEquals
        exact ⟨_, across, .equals (absent ';' rest)⟩
  · split at passes
    · rename_i brace
      have across := (across_passWhile cursor (· ≠ '\x7d')).trans (sign?_eq_some_iff.mp passes)
      obtain ⟨passed, ahead⟩ := cursor
      cases ahead with
      | nil => cases brace
      | cons first rest =>
          have isBrace : first = '\x7b' := by simpa [nextIs] using brace
          subst isBrace
          exact ⟨_, across, .braces (absent '\x7d' rest)⟩
    · cases passes
      exact ⟨[], Across.refl _, .none⟩

theorem value_of_readEnd? {cursor next : Cursor} (reads : readEnd? cursor = some next) :
    ∃ blanks value, (∀ character ∈ blanks, isBlank character = true) ∧ IsValue value ∧
      Across cursor (blanks ++ (value ++ [';'])) next := by
  obtain ⟨behindValue, passes, sign⟩ := Option.bind_eq_some_iff.mp reads
  obtain ⟨value, across, isValue⟩ := value_of_passInitializer passes
  exact ⟨_, value, List.all_eq_true.mp List.all_takeWhile, isValue,
    (across_passBlanks cursor).trans (across.trans (sign?_eq_some_iff.mp sign))⟩

theorem passWhile_ne_append {sign : Char} {run : List Char} (absent : sign ∉ run)
    (passed rest : List Char) : (Cursor.mk passed (run ++ sign :: rest)).passWhile (· ≠ sign) =
      ⟨run.reverse ++ passed, sign :: rest⟩ := by
  refine passWhile_append (fun character member => ?_) (by simp)
  have different : character ≠ sign := fun same => absent (same ▸ member)
  simp [different]

theorem passInitializer_append {value : List Char} (isValue : IsValue value)
    (passed rest : List Char) : passInitializer ⟨passed, value ++ ';' :: rest⟩ =
      some ⟨value.reverse ++ passed, ';' :: rest⟩ := by
  cases isValue with
  | none => rfl
  | @equals text ends =>
      change some ((Cursor.mk passed ('=' :: text ++ ';' :: rest)).passWhile (· ≠ ';')) = _
      rw [passWhile_ne_append (by simpa using ends)]
  | @braces inside ends =>
      have shape : '\x7b' :: (inside ++ ['\x7d']) ++ ';' :: rest =
          ('\x7b' :: inside) ++ '\x7d' :: ';' :: rest := by
        simp
      rw [shape]
      change ((Cursor.mk passed (('\x7b' :: inside) ++ '\x7d' :: ';' :: rest)).passWhile
        (· ≠ '\x7d')).sign? "\x7d" = _
      rw [passWhile_ne_append (by simpa using ends), sign?_eq_some_iff]
      exact ⟨rfl, by simp⟩

theorem readEnd?_append {blanks value : List Char}
    (blank : ∀ character ∈ blanks, isBlank character = true) (isValue : IsValue value)
    (passed rest : List Char) :
    readEnd? ⟨passed, blanks ++ (value ++ ';' :: rest)⟩ =
      some ⟨(blanks ++ (value ++ [';'])).reverse ++ passed, rest⟩ := by
  have stops : (value ++ ';' :: rest).head?.any isBlank = false := by
    cases isValue <;> rfl
  rw [readEnd?, passBlanks, passWhile_append blank stops, passInitializer_append isValue,
    Option.bind_some, sign?_eq_some_iff]
  exact ⟨rfl, by simp⟩

theorem readDeclarator?_name {blanks name : List Char}
    (blank : ∀ character ∈ blanks, isBlank character = true) (isWordText : IsWordText name)
    {passed tail : List Char} (outside : NotInWord (blanks.reverse ++ passed))
    (stops : tail.head?.any isWord = false) :
    readDeclarator? ⟨passed, blanks ++ (name ++ tail)⟩ =
      (readEnd? ⟨name.reverse ++ (blanks.reverse ++ passed), tail⟩).map (name, ·) := by
  obtain ⟨first, others, shape, letter, notBlank⟩ := exists_first_of_isWordText isWordText
  have start : (Cursor.mk passed (blanks ++ (name ++ tail))).passBlanks =
      ⟨blanks.reverse ++ passed, name ++ tail⟩ :=
    passWhile_append blank (by simpa [shape] using notBlank)
  have boundary : (Cursor.mk (blanks.reverse ++ passed) (name ++ tail)).isBoundary = true :=
    isBoundary_of_word outside (by simpa [shape] using letter)
  rw [readDeclarator?_eq, start, if_pos boundary, word?_append isWordText.1 isWordText.2 stops]
  rfl

theorem value_of_readDeclarator? {cursor next : Cursor} {name : List Char}
    (reads : readDeclarator? cursor = some (name, next)) :
    ∃ chars value, (∀ character ∈ chars, isTypeChar character = true) ∧ IsValue value ∧
      Across cursor (chars ++ (value ++ [';'])) next := by
  rw [readDeclarator?_eq, Option.ite_none_right_eq_some, Option.bind_eq_some_iff] at reads
  obtain ⟨_, ⟨word, behindName⟩, readsWord, reads⟩ := reads
  obtain ⟨behind, ends, equality⟩ := Option.map_eq_some_iff.mp reads
  cases equality
  obtain ⟨toName, shape, _⟩ := across_of_word? readsWord
  obtain ⟨blanks, value, blank, isValue, toEnd⟩ := value_of_readEnd? ends
  have letters : ∀ character ∈ word, isWord character = true := by
    rw [shape]
    exact List.all_eq_true.mp List.all_takeWhile
  refine ⟨cursor.ahead.takeWhile isBlank ++ (word ++ blanks), value, ?_, isValue, ?_⟩
  · simp only [List.forall_mem_append]
    exact ⟨fun _ member => isTypeChar_of_isBlank (List.all_eq_true.mp List.all_takeWhile _ member),
      fun _ member => isTypeChar_of_isWord (letters _ member),
      fun _ member => isTypeChar_of_isBlank (blank _ member)⟩
  · have whole := (across_passBlanks cursor).trans (toName.trans toEnd)
    simpa using whole

theorem head?_dropWhile_isBlank {text : List Char}
    (unblank : ∃ character ∈ text, isBlank character = false) (rest : List Char) :
    ∃ next ∈ text, ((text ++ rest).dropWhile isBlank).head? = some next := by
  induction text with
  | nil =>
      obtain ⟨_, member, _⟩ := unblank
      cases member
  | cons next later induction =>
      cases blank : isBlank next with
      | false => exact ⟨next, List.mem_cons_self, by simp [blank]⟩
      | true =>
          obtain ⟨character, member, keeps⟩ := unblank
          rcases List.mem_cons.mp member with rfl | behind
          · rw [blank] at keeps
            exact Bool.noConfusion keeps
          · obtain ⟨found, listed, comesNext⟩ := induction ⟨character, behind, keeps⟩
            exact ⟨found, List.mem_cons_of_mem next listed, by simpa [blank] using comesNext⟩

theorem readEnd?_of_isTypeChar {cursor : Cursor} {character : Char}
    (comesNext : (cursor.ahead.dropWhile isBlank).head? = some character)
    (isChar : isTypeChar character = true) : readEnd? cursor = none := by
  cases reads : readEnd? cursor with
  | none => rfl
  | some next =>
      obtain ⟨blanks, value, blank, isValue, ahead, _⟩ := value_of_readEnd? reads
      have stops := isValue.head?_any_isTypeChar next.ahead
      have solid : (value ++ ';' :: next.ahead).head?.any isBlank = false := by
        cases isValue <;> rfl
      rw [ahead, List.append_assoc, List.append_assoc, List.singleton_append,
        dropWhile_append_of_stops blank solid] at comesNext
      rw [comesNext] at stops
      simp [isChar] at stops

theorem ahead_of_word? {cursor next : Cursor} {word : List Char}
    (reads : cursor.word? = some (word, next)) : next.ahead = cursor.ahead.dropWhile isWord := by
  obtain ⟨across, shape, _⟩ := across_of_word? reads
  have parts := @List.takeWhile_append_dropWhile _ isWord cursor.ahead
  rw [← shape] at parts
  exact (List.append_cancel_left (parts.trans across.1)).symm

theorem dropWhile_isWord_ne_nil {run passed : List Char} (nonempty : run ≠ [])
    (outside : NotInWord (run.reverse ++ passed)) : run.dropWhile isWord ≠ [] := by
  intro empty
  have letter := List.dropWhile_eq_nil_iff.mp empty _ (List.getLast_mem nonempty)
  rw [NotInWord, List.head?_append, List.head?_reverse, List.getLast?_eq_some_getLast nonempty,
    Option.some_or, Option.any_some, letter] at outside
  cases outside

/-- No declarator begins inside a run of type characters in front of a name. -/
theorem readDeclarator?_inside {after name passed : List Char}
    (unblank : ∃ character ∈ after, isBlank character = false)
    (chars : ∀ character ∈ after, isTypeChar character = true)
    (outside : NotInWord (after.reverse ++ passed)) (isWordText : IsWordText name)
    (rest : List Char) : readDeclarator? ⟨passed, after ++ (name ++ rest)⟩ = none := by
  obtain ⟨first, listed, comesFirst⟩ := head?_dropWhile_isBlank unblank []
  rw [List.append_nil] at comesFirst
  have core : after.dropWhile isBlank ≠ [] := by
    rintro empty
    simp [empty] at comesFirst
  have start : (Cursor.mk passed (after ++ (name ++ rest))).passBlanks.ahead =
      after.dropWhile isBlank ++ (name ++ rest) := by
    simp only [passBlanks, passWhile, List.dropWhile_append, List.isEmpty_iff, core, if_false]
  have unword : (after.dropWhile isBlank).dropWhile isWord ≠ [] := by
    apply dropWhile_isWord_ne_nil core
    rwa [← List.append_assoc, ← List.reverse_append, List.takeWhile_append_dropWhile]
  rw [readDeclarator?_eq, ite_eq_right_iff]
  intro _
  cases reads : (Cursor.mk passed (after ++ (name ++ rest))).passBlanks.word? with
  | none => rfl
  | some found =>
      have behindName : found.2.ahead =
          (after.dropWhile isBlank).dropWhile isWord ++ (name ++ rest) := by
        rw [ahead_of_word? reads, start, List.dropWhile_append, if_neg (by simpa using unword)]
      obtain ⟨letter, others, shape, _, notBlank⟩ := exists_first_of_isWordText isWordText
      obtain ⟨next, member, comesNext⟩ := @head?_dropWhile_isBlank
        ((after.dropWhile isBlank).dropWhile isWord ++ name)
        ⟨letter, by simp [shape], notBlank⟩ rest
      rw [List.append_assoc, ← behindName] at comesNext
      have isChar : isTypeChar next = true := by
        rcases List.mem_append.mp member with inRun | inName
        · exact chars next ((List.dropWhile_suffix isBlank).subset
            ((List.dropWhile_suffix isWord).subset inRun))
        · exact isTypeChar_of_isWord (isWordText.2 next inName)
      rw [Option.bind_some, readEnd?_of_isTypeChar comesNext isChar]
      rfl

/-- A run of type characters in front of a name is the type, but for the blanks it ends with. -/
theorem readType?_name {after name passed tail : List Char} {behind : Cursor}
    (chars : ∀ character ∈ after, isTypeChar character = true)
    (outside : NotInWord (after.reverse ++ passed)) (isWordText : IsWordText name)
    (stops : tail.head?.any isWord = false)
    (ends : readEnd? ⟨name.reverse ++ (after.reverse ++ passed), tail⟩ = some behind)
    (type : List Char) :
    readType? type passed (after ++ (name ++ tail)) =
      some ((type.reverse ++ dropEndWhile isBlank after, name), behind) := by
  induction after generalizing type passed with
  | nil =>
      have declarator := @readDeclarator?_name [] name (by simp) isWordText passed tail outside stops
      have ends : readEnd? ⟨name.reverse ++ passed, tail⟩ = some behind := ends
      rw [List.reverse_nil, List.nil_append, List.nil_append, ends, Option.map_some] at declarator
      obtain ⟨first, others, rfl⟩ := List.exists_cons_of_ne_nil isWordText.1
      exact (readType?_of_declarator declarator).trans (by simp [dropEndWhile])
  | cons next later induction =>
      by_cases blank : ∀ character ∈ next :: later, isBlank character = true
      · have declarator := readDeclarator?_name blank isWordText outside stops
        rw [ends, Option.map_some] at declarator
        rw [(dropEndWhile_eq_nil_iff isBlank _).mpr blank, List.append_nil]
        exact readType?_of_declarator declarator
      · have unblank : ∃ character ∈ next :: later, isBlank character = false := by
          simpa only [not_forall, exists_prop, Bool.not_eq_true] using blank
        have inside := readDeclarator?_inside unblank chars outside isWordText tail
        obtain ⟨nextIsChar, laterChars⟩ := List.forall_mem_cons.mp chars
        have further := @induction (next :: passed) laterChars (by simpa using outside)
          (by simpa using ends) (next :: type)
        have kept : dropEndWhile isBlank (next :: later) = next :: dropEndWhile isBlank later := by
          rw [dropEndWhile]
          cases rest : dropEndWhile isBlank later with
          | cons kept others => rfl
          | nil =>
              have laterBlank := (dropEndWhile_eq_nil_iff isBlank later).mp rest
              exact if_neg fun nextBlank => blank (List.forall_mem_cons.mpr ⟨nextBlank, laterBlank⟩)
        rw [kept]
        exact (readType?_of_isTypeChar inside nextIsChar).trans (further.trans (by simp))

/-- What is read of a declaration are type characters, an initializer and the semicolon. -/
theorem value_of_readType? {type passed ahead found name : List Char} {next : Cursor}
    (reads : readType? type passed ahead = some ((found, name), next)) :
    ∃ chars value more, (∀ character ∈ chars, isTypeChar character = true) ∧ IsValue value ∧
      Across ⟨passed, ahead⟩ (chars ++ (value ++ [';'])) next ∧
        found = type.reverse ++ more ∧ more ⊆ chars := by
  induction ahead generalizing type passed with
  | nil => cases reads
  | cons first rest induction =>
      rw [readType?_cons] at reads
      split at reads
      · rename_i declared behind declarator
        cases reads
        obtain ⟨chars, value, areChars, isValue, across⟩ := value_of_readDeclarator? declarator
        exact ⟨chars, value, [], areChars, isValue, across, by simp, by simp⟩
      · split at reads
        · rename_i isChar
          obtain ⟨chars, value, more, areChars, isValue, across, rfl, listed⟩ := induction reads
          have step : Across ⟨passed, first :: rest⟩ [first] ⟨first :: passed, rest⟩ := ⟨rfl, rfl⟩
          refine ⟨first :: chars, value, first :: more, List.forall_mem_cons.mpr ⟨isChar, areChars⟩,
            isValue, step.trans across, by simp, List.cons_subset_cons first listed⟩
        · cases reads

/-- Passes a marker and the parentheses behind it. -/
def readCall? (marker : List Char) (cursor : Cursor) : Option Cursor := do
  guard cursor.isBoundary
  let behindMarker ← cursor.literal? marker
  let inside ← behindMarker.passBlanks.sign? "("
  inside.passBlanks.sign? ")"

/-- Reads a property whose type starts here. -/
def readDeclared? : Recogniser Property := fun cursor =>
  match cursor.ahead with
  | [] => none
  | first :: rest => do
    guard (isIdentifierStart first)
    let ((type, name), behind) ← readType? [first] (first :: cursor.passed) rest
    some (⟨String.ofList name, String.ofList (TypeText.normalForm type)⟩, behind)

theorem read?_eq (marker : List Char) (cursor : Cursor) :
    read? marker cursor = (readCall? marker cursor).bind fun behind =>
      readDeclared? behind.passBlanks := by
  have call (next : Recogniser Property) : (readCall? marker cursor).bind next =
      (guard cursor.isBoundary : Option Unit).bind fun _ => (cursor.literal? marker).bind fun behindMarker =>
        (behindMarker.passBlanks.sign? "(").bind fun inside =>
          (inside.passBlanks.sign? ")").bind next := by
    simp only [readCall?, Option.bind_eq_bind, Option.bind_assoc]
  rw [call]
  rfl

/-- What is read of a property are type characters, an initializer and the semicolon, and its type
is the normal form of some of these characters. -/
theorem value_of_readDeclared? {cursor next : Cursor} {property : Property}
    (reads : readDeclared? cursor = some (property, next)) :
    cursor.ahead.head?.any isIdentifierStart = true ∧ ∃ chars value type,
      (∀ character ∈ chars, isTypeChar character = true) ∧ IsValue value ∧
        Across cursor (chars ++ (value ++ [';'])) next ∧ type ⊆ chars ∧
          property.type = String.ofList (TypeText.normalForm type) := by
  obtain ⟨passed, ahead⟩ := cursor
  cases ahead with
  | nil => cases reads
  | cons first rest =>
      simp only [readDeclared?, Option.bind_eq_bind, Option.bind_eq_some_iff,
        Option.guard_eq_some'] at reads
      obtain ⟨_, starts, ⟨⟨type, name⟩, behind⟩, typed, equality⟩ := reads
      cases equality
      obtain ⟨chars, value, more, areChars, isValue, across, rfl, listed⟩ := value_of_readType? typed
      have isChar : isTypeChar first = true := isTypeChar_of_isWord
        (isWord_of_isIdentifierChar (isIdentifierChar_of_isIdentifierStart starts))
      have step : Across ⟨passed, first :: rest⟩ [first] ⟨first :: passed, rest⟩ := ⟨rfl, rfl⟩
      exact ⟨starts, first :: chars, value, first :: more,
        List.forall_mem_cons.mpr ⟨isChar, areChars⟩, isValue, step.trans across,
        List.cons_subset_cons first listed, rfl⟩

/-- A run of type characters in front of a name is read as its type. -/
theorem readDeclared?_name {run name tail passed : List Char} {behind : Cursor}
    (chars : ∀ character ∈ run, isTypeChar character = true)
    (starts : run.head?.any isIdentifierStart = true)
    (outside : NotInWord run.reverse) (isWordText : IsWordText name)
    (stops : tail.head?.any isWord = false)
    (ends : readEnd? ⟨name.reverse ++ (run.reverse ++ passed), tail⟩ = some behind) :
    readDeclared? ⟨passed, run ++ (name ++ tail)⟩ = some
      (⟨String.ofList name, String.ofList (TypeText.normalForm run)⟩, behind) := by
  cases run with
  | nil => cases starts
  | cons first after =>
      have startsType : isIdentifierStart first = true := starts
      have outsideAfter : NotInWord (after.reverse ++ first :: passed) := by
        rw [NotInWord, List.reverse_cons, List.head?_append] at outside
        rwa [NotInWord, List.head?_append]
      have typed := readType?_name (List.forall_mem_cons.mp chars).2 outsideAfter isWordText stops
        (by simpa using ends) [first]
      have sameForm : TypeText.normalForm (first :: dropEndWhile isBlank after) =
          TypeText.normalForm (first :: after) := by
        obtain ⟨dropped, shape, blank⟩ := dropEndWhile_append isBlank after
        rw [congrArg (first :: ·) shape, ← List.cons_append]
        exact (TypeText.normalForm_append_of_blank_or_sign _
          fun character member => Or.inl (blank character member)).symm
      simp only [readDeclared?, List.cons_append, startsType, guard, if_true, Option.bind_eq_bind,
        Option.pure_def, Option.bind_some, typed]
      simp [sameForm]

end ScriptRegistrar.PropertyDeclaration
