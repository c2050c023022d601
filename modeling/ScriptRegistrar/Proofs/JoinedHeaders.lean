import ScriptRegistrar.Proofs.ConstructorLocality
import ScriptRegistrar.Proofs.Layout.Headers

/-!
# Headers joined by a semicolon

What a scan finds from a place on is decided by the text ahead; of the text before it only counts
whether a word reaches up to the place.  No head of a class holds a semicolon, and a body that
closes in a text does not reach beyond it.  So a header that is scanned to its end reports the same
in front of a semicolon and more text, and the scan goes on in that text as if it stood alone.
-/

namespace ScriptRegistrar

open Text Text.Cursor Text.Recogniser

namespace Text

/-- Whether a text is empty or starts with a semicolon. -/
def StartsApart (text : List Char) : Prop :=
  ∀ next ∈ text.head?, next = ';'

namespace StartsApart

variable {behind : List Char} (apart : StartsApart behind)

include apart

theorem head?_any {test : Char → Bool} (fails : test ';' = false) :
    behind.head?.any test = false := by
  cases behind with
  | nil => rfl
  | cons next rest =>
      obtain rfl : next = ';' := apart next rfl
      exact fails

theorem append_head?_any {test : Char → Bool} (fails : test ';' = false) (text : List Char) :
    (text ++ behind).head?.any test = text.head?.any test := by
  cases text with
  | nil => exact apart.head?_any fails
  | cons next rest => rfl

theorem takeWhile_append {test : Char → Bool} (fails : test ';' = false) (text : List Char) :
    (text ++ behind).takeWhile test = text.takeWhile test := by
  induction text with
  | nil => exact @takeWhile_append_of_stops [] behind test (by simp) (apart.head?_any fails)
  | cons next rest induction =>
      rw [List.cons_append, List.takeWhile_cons, List.takeWhile_cons, induction]

theorem dropWhile_append {test : Char → Bool} (fails : test ';' = false) (text : List Char) :
    (text ++ behind).dropWhile test = text.dropWhile test ++ behind := by
  induction text with
  | nil => exact @dropWhile_append_of_stops [] behind test (by simp) (apart.head?_any fails)
  | cons next rest induction =>
      rw [List.cons_append, List.dropWhile_cons, List.dropWhile_cons, induction]
      split <;> rfl

theorem isPrefixOf_append {expected : List Char} (absent : ';' ∉ expected) (text : List Char) :
    expected.isPrefixOf (text ++ behind) = expected.isPrefixOf text := by
  cases behind with
  | nil => rw [List.append_nil]
  | cons next rest =>
      obtain rfl : next = ';' := apart next rfl
      exact isPrefixOf_append_stop absent text

end StartsApart

namespace Cursor

/-- Whether the text ahead of the right place is that of the left one with `behind` added to it,
and a word reaches up to both places or to neither. -/
structure Prolongs (behind : List Char) (left right : Cursor) : Prop where
  passed : right.passed.head?.any isWord = left.passed.head?.any isWord
  ahead : right.ahead = left.ahead ++ behind

namespace Prolongs

variable {behind : List Char} {left right : Cursor}

theorem passed_append (prolongs : Prolongs behind left right) (text : List Char) :
    (text ++ right.passed).head?.any isWord = (text ++ left.passed).head?.any isWord := by
  cases text with
  | nil => exact prolongs.passed
  | cons next rest => rfl

variable (apart : StartsApart behind) (prolongs : Prolongs behind left right)

include apart prolongs

theorem isBoundary : left.isBoundary = right.isBoundary := by
  rw [Cursor.isBoundary, Cursor.isBoundary, Text.isBoundary, Text.isBoundary, prolongs.passed,
    prolongs.ahead, apart.append_head?_any (by decide)]

theorem literal? {expected : List Char} (absent : ';' ∉ expected) :
    Option.Rel (Prolongs behind) (left.literal? expected) (right.literal? expected) := by
  unfold Cursor.literal?
  rw [prolongs.ahead, apart.isPrefixOf_append absent]
  split
  · rename_i comesNext
    have fits := (List.isPrefixOf_iff_prefix.mp comesNext).length_le
    exact .some ⟨prolongs.passed_append _, List.drop_append_of_le_length fits⟩
  · exact .none

theorem sign? {expected : String} (absent : ';' ∉ expected.toList) :
    Option.Rel (Prolongs behind) (left.sign? expected) (right.sign? expected) :=
  prolongs.literal? apart absent

theorem passWhile {test : Char → Bool} (fails : test ';' = false) :
    Prolongs behind (left.passWhile test) (right.passWhile test) := by
  constructor
  · rw [Cursor.passWhile, Cursor.passWhile, prolongs.ahead, apart.takeWhile_append fails]
    exact prolongs.passed_append _
  · rw [Cursor.passWhile, Cursor.passWhile, prolongs.ahead, apart.dropWhile_append fails]

theorem passBlanks : Prolongs behind left.passBlanks right.passBlanks :=
  prolongs.passWhile apart (by decide)

theorem blanks? : Option.Rel (Prolongs behind) left.blanks? right.blanks? := by
  unfold Cursor.blanks? Cursor.nextIs
  rw [prolongs.ahead, apart.append_head?_any (by decide)]
  split
  · exact .some (prolongs.passBlanks apart)
  · exact .none

end Prolongs

end Cursor

/-- Either a search finds related results, or nothing is found in the left text, and the search in
the right one goes on in the text that is added. -/
theorem Recogniser.firstFrom?_prolongs {α : Type} {behind : List Char} {relation : α → α → Prop}
    {read : Cursor → Option α}
    (reads : ∀ left right, Prolongs behind left right →
      Option.Rel relation (read left) (read right))
    {passed other : List Char} (same : other.head?.any isWord = passed.head?.any isWord)
    (ahead : List Char) :
    (∃ found otherFound, firstFrom? read passed ahead = some found ∧
      firstFrom? read other (ahead ++ behind) = some otherFound ∧ relation found otherFound) ∨
    firstFrom? read passed ahead = none ∧
      firstFrom? read other (ahead ++ behind) =
        firstFrom? read (ahead.reverse ++ other) behind := by
  induction ahead generalizing passed other with
  | nil =>
      rcases cases_of_rel (reads ⟨passed, []⟩ ⟨other, behind⟩ ⟨same, rfl⟩) with
        ⟨nothing, _⟩ | ⟨found, otherFound, onLeft, onRight, related⟩
      · exact Or.inr ⟨nothing, rfl⟩
      · exact Or.inl ⟨found, otherFound, onLeft, firstFrom?_eq_some_of_read onRight, related⟩
  | cons next rest induction =>
      rw [List.cons_append, firstFrom?, firstFrom?]
      rcases cases_of_rel (reads ⟨passed, next :: rest⟩ ⟨other, next :: (rest ++ behind)⟩
        ⟨same, rfl⟩) with ⟨onLeft, onRight⟩ | ⟨found, otherFound, onLeft, onRight, related⟩
      · rw [onLeft, onRight]
        simpa using @induction (next :: passed) (next :: other) rfl
      · rw [onLeft, onRight]
        exact Or.inl ⟨found, otherFound, rfl, rfl, related⟩

end Text

namespace ClassHead

variable {base behind : List Char} (isWordText : IsWordText base) (apart : StartsApart behind)

include isWordText apart

theorem base?_prolongs {left right : Cursor} (prolongs : Prolongs behind left right) :
    Option.Rel (Prolongs behind) (base? base left) (base? base right) := by
  have absent : ';' ∉ base := fun member => absurd (isWordText.2 _ member) (by decide)
  apply rel_bind (prolongs.literal? apart absent)
  intro first second further
  simp only [further.isBoundary apart]
  split
  · exact .some further
  · exact .none

/-- A head is read alike whatever is added behind a semicolon. -/
theorem read?_prolongs (left right : Cursor) (prolongs : Prolongs behind left right) :
    Option.Rel (fun first second => first.1.name = second.1.name ∧
      Prolongs behind first.2 second.2) (read? base left) (read? base right) := by
  have noName : (isWord ';' || isBlank ';') = false := by decide
  apply rel_bind (rel_guard (prolongs.isBoundary apart))
  intro _ _ _
  apply rel_bind (rel_or (prolongs.sign? apart (show ';' ∉ "class".toList by decide))
    (prolongs.sign? apart (show ';' ∉ "struct".toList by decide)))
  intro _ _ behindKeyword
  apply rel_bind (behindKeyword.blanks? apart)
  intro declaration otherDeclaration further
  have sameRun : declaration.ahead.takeWhile (fun next => isWord next || isBlank next) =
      otherDeclaration.ahead.takeWhile (fun next => isWord next || isBlank next) := by
    rw [further.ahead, apart.takeWhile_append noName]
  apply rel_bind (rel_of_eq (congrArg (fun run => declaredName? (words run)) sameRun))
  intro name otherName sameName
  apply rel_bind ((further.passWhile apart noName).sign? apart (show ';' ∉ ":".toList by decide))
  intro _ _ behindColon
  apply rel_bind ((behindColon.passBlanks apart).sign? apart
    (show ';' ∉ "public".toList by decide))
  intro behindAccess otherBehindAccess furtherAccess
  rw [findSome?_behindBlanks isWordText, findSome?_behindBlanks isWordText]
  apply rel_bind (rel_bind (furtherAccess.blanks? apart)
    fun _ _ => base?_prolongs isWordText apart)
  intro _ _ behindHead
  exact .some ⟨congrArg String.ofList sameName, behindHead⟩

end ClassHead

namespace ClassBody

variable {className : String} {behind : List Char} {left right : Cursor}

/-- A body is the same whatever is added behind its text. -/
theorem after_prolongs (prolongs : Prolongs behind left right) {body : ClassBody}
    (read : after className left = .ok body) :
    ∃ other, after className right = .ok other ∧ other.text = body.text ∧
      Prolongs behind body.behind other.behind := by
  obtain ⟨passed, ahead⟩ := right
  rcases after_cases className left with ⟨_, fails⟩ | ⟨before, rest, notBefore, shape, reads⟩
  · rw [fails] at read
    cases read
  · rw [reads] at read
    cases closed : Bracketed.braces? rest with
    | none =>
        rw [closed] at read
        cases read
    | some parts =>
        obtain ⟨inside, more⟩ := parts
        rw [closed] at read
        cases read
        have closedToo : Bracketed.braces? (rest ++ behind) = some (inside, more ++ behind) :=
          Bracketed.close?_append_right (by decide) closed behind
        have shapeToo : ahead = before ++ '\x7b' :: (rest ++ behind) := by
          rw [show ahead = left.ahead ++ behind from prolongs.ahead, shape, List.append_assoc,
            List.cons_append]
        have readToo := @after_append className passed before (rest ++ behind) notBefore
        rw [← shapeToo, closedToo] at readToo
        exact ⟨_, readToo, rfl, rfl, rfl⟩

theorem after_eq_error_of_ahead_eq (same : right.ahead = left.ahead) {failure : ScanFailure}
    (read : after className left = .error failure) : after className right = .error failure := by
  obtain ⟨passed, ahead⟩ := right
  obtain rfl : ahead = left.ahead := same
  rcases after_cases className left with ⟨noBrace, fails⟩ | ⟨before, rest, notBefore, shape, reads⟩
  · rcases after_cases className ⟨passed, left.ahead⟩ with
      ⟨_, failsToo⟩ | ⟨before, rest, _, shape, _⟩
    · rw [failsToo, ← read, fails]
    · exact (noBrace (by rw [show left.ahead = _ from shape]; simp)).elim
  · rw [reads] at read
    rw [shape, after_append className notBefore]
    cases closed : Bracketed.braces? rest with
    | none =>
        rw [closed] at read
        exact read
    | some parts =>
        rw [closed] at read
        cases read

end ClassBody

namespace Scanner

variable {scanner : Scanner} (header : Path) {left right : Cursor}

theorem scanFrom_eq_of_next?_eq
    (same : ClassHead.next? scanner.baseClass left = ClassHead.next? scanner.baseClass right) :
    scanner.scanFrom header left = scanner.scanFrom header right := by
  cases next : ClassHead.next? scanner.baseClass right with
  | none => rw [scanFrom_of_none header next, scanFrom_of_none header (same.trans next)]
  | some found =>
      obtain ⟨head, behindHead⟩ := found
      cases read : ClassBody.after head.name behindHead with
      | error failure =>
          rw [scanFrom_of_error header next read, scanFrom_of_error header (same.trans next) read]
      | ok body =>
          rw [scanFrom_of_next? header next read, scanFrom_of_next? header (same.trans next) read]

variable (base : IsWordText scanner.baseClass.toList)

include base

theorem next?_prolongs {behind : List Char} (apart : StartsApart behind)
    (prolongs : Prolongs behind left right) {head : ClassHead} {next : Cursor}
    (onLeft : ClassHead.next? scanner.baseClass left = some (head, next)) :
    ∃ other otherNext, ClassHead.next? scanner.baseClass right = some (other, otherNext) ∧
      head.name = other.name ∧ Prolongs behind next otherNext := by
  obtain ⟨passed, ahead⟩ := right
  obtain rfl : ahead = left.ahead ++ behind := prolongs.ahead
  rcases firstFrom?_prolongs (ClassHead.read?_prolongs base apart) prolongs.passed left.ahead with
    ⟨⟨_, _⟩, ⟨other, otherNext⟩, found, onRight, names, further⟩ | ⟨nothing, _⟩
  · cases found.symm.trans onLeft
    exact ⟨other, otherNext, onRight, names, further⟩
  · cases nothing.symm.trans onLeft

theorem next?_prolongs_of_none {behind : List Char} (apart : StartsApart behind)
    (prolongs : Prolongs behind left right)
    (onLeft : ClassHead.next? scanner.baseClass left = none) :
    ∃ passed, ClassHead.next? scanner.baseClass right =
      ClassHead.next? scanner.baseClass ⟨passed, behind⟩ := by
  obtain ⟨passed, ahead⟩ := right
  obtain rfl : ahead = left.ahead ++ behind := prolongs.ahead
  rcases firstFrom?_prolongs (ClassHead.read?_prolongs base apart) prolongs.passed left.ahead with
    ⟨_, _, found, _⟩ | ⟨_, onRight⟩
  · cases found.symm.trans onLeft
  · exact ⟨_, onRight⟩

theorem scanFrom_eq_of_prolongs (prolongs : Prolongs [] left right) :
    scanner.scanFrom header left = scanner.scanFrom header right := by
  have apart : StartsApart [] := by simp [StartsApart]
  induction left using scanner.scan_induction generalizing right with
  | finished left onLeft =>
      obtain ⟨passed, onRight⟩ := next?_prolongs_of_none base apart prolongs onLeft
      have nothing : ClassHead.next? scanner.baseClass ⟨passed, []⟩ = none := by
        cases result : ClassHead.next? scanner.baseClass ⟨passed, []⟩ with
        | none => rfl
        | some found => exact (Nat.not_lt_zero _
            (firstFrom?_advances (ClassHead.advances_read? _) result)).elim
      rw [scanFrom_of_none header onLeft, scanFrom_of_none header (onRight.trans nothing)]
  | failed left head next failure onLeft read =>
      obtain ⟨other, otherNext, onRight, names, further⟩ :=
        next?_prolongs base apart prolongs onLeft
      have readToo := ClassBody.after_eq_error_of_ahead_eq
        (further.ahead.trans (List.append_nil _)) read
      rw [names] at readToo
      rw [scanFrom_of_error header onLeft read, scanFrom_of_error header onRight readToo]
  | passed left head next body onLeft read induction =>
      obtain ⟨other, otherNext, onRight, names, further⟩ :=
        next?_prolongs base apart prolongs onLeft
      obtain ⟨otherBody, readToo, sameText, behindBody⟩ := ClassBody.after_prolongs further read
      rw [names] at readToo
      rw [scanFrom_of_next? header onLeft read, scanFrom_of_next? header onRight readToo,
        induction behindBody, names, sameText]

/-- A scan that comes to its end in a text goes on in what is added behind it. -/
theorem scanFrom_of_prolongs {behind : List Char} (apart : StartsApart behind)
    (prolongs : Prolongs behind left right)
    (complete : (scanner.scanFrom header left).failure = none) {others : HeaderScan}
    (goesOn : ∀ passed, scanner.scanFrom header ⟨passed, behind⟩ = others) :
    scanner.scanFrom header right =
      { others with records := (scanner.scanFrom header left).records ++ others.records } := by
  induction left using scanner.scan_induction generalizing right with
  | finished left onLeft =>
      obtain ⟨passed, onRight⟩ := next?_prolongs_of_none base apart prolongs onLeft
      rw [scanFrom_eq_of_next?_eq header onRight, goesOn passed, scanFrom_of_none header onLeft]
      rfl
  | failed left head next failure onLeft read =>
      rw [scanFrom_of_error header onLeft read] at complete
      cases complete
  | passed left head next body onLeft read induction =>
      obtain ⟨other, otherNext, onRight, names, further⟩ :=
        next?_prolongs base apart prolongs onLeft
      obtain ⟨otherBody, readToo, sameText, behindBody⟩ := ClassBody.after_prolongs further read
      rw [scanFrom_of_next? header onLeft read] at complete ⊢
      rw [names] at readToo
      rw [scanFrom_of_next? header onRight readToo, induction behindBody complete, names, sameText]
      rfl

@[simp] theorem scanFrom_semicolon (passed text : List Char) :
    scanner.scanFrom header ⟨passed, ';' :: '\n' :: text⟩ =
      scanner.scanFrom header (Cursor.start text) := by
  have signs : ∀ character ∈ [';', '\n'], isWord character = false :=
    List.forall_mem_cons.mpr ⟨by decide, List.forall_mem_singleton.mpr (by decide)⟩
  have skipped : ClassHead.next? scanner.baseClass ⟨passed, [';', '\n'] ++ text⟩ =
      ClassHead.next? scanner.baseClass ⟨'\n' :: ';' :: passed, text⟩ :=
    firstFrom?_append_of_signs (ClassHead.begins_read? _) ClassHead.not_isClassKeyword_nil signs
      passed text
  have alike : Prolongs [] (Cursor.start text) ⟨'\n' :: ';' :: passed, text⟩ :=
    ⟨by simp [Cursor.start, show isWord '\n' = false by decide], (List.append_nil text).symm⟩
  exact (scanFrom_eq_of_next?_eq header skipped).trans
    (scanFrom_eq_of_prolongs header base alike).symm

end Scanner

namespace Generator

/-- A header that is scanned to its end, a semicolon and another header are scanned as the two
headers are: the records of the first, then those of the second, and the failure of the second. -/
theorem scanHeader_append (generator : Generator) (header : Path) {first : String}
    (complete : (generator.scanner.scanHeader first header).failure = none) (second : String) :
    generator.scanner.scanHeader (first ++ ";\n" ++ second) header =
      { records := (generator.scanner.scanHeader first header).records ++
          (generator.scanner.scanHeader second header).records
        failure := (generator.scanner.scanHeader second header).failure } := by
  have base := generator.isWordText_baseClass
  have prolongs : Prolongs (';' :: '\n' :: second.toList) (Cursor.start first.toList)
      (Cursor.start (first ++ ";\n" ++ second).toList) := by
    refine ⟨rfl, ?_⟩
    simp [Cursor.start]
  exact Scanner.scanFrom_of_prolongs header base (by simp [StartsApart]) prolongs complete
    fun passed => Scanner.scanFrom_semicolon header base passed second.toList

/-- A header without a brace at its end, and another one whose second class has no body. -/
theorem scanHeader_append_door :
    let generator : Generator := ⟨{ baseClass := "B" }, .engineDefault, rfl⟩
    let first := "class Door:public B\x7bvoid Update();\x7d class"
    let second := "class Lamp:public B\x7b\x7d;class Bolt:public B"
    (generator.scanner.scanHeader first ⟨"Door.h"⟩).failure = none ∧
      (generator.scanner.scanHeader (first ++ ";\n" ++ second) ⟨"Door.h"⟩).records.map (·.name) =
        ["Door", "Lamp"] ∧
      (generator.scanner.scanHeader (first ++ ";\n" ++ second) ⟨"Door.h"⟩).failure =
        some (.missingBody "Bolt") := by
  intro generator first second
  have complete : (generator.scanner.scanHeader first ⟨"Door.h"⟩).failure = none := by
    decide +kernel
  refine ⟨complete, ?_⟩
  rw [scanHeader_append generator ⟨"Door.h"⟩ complete second]
  decide +kernel

end Generator

end ScriptRegistrar
