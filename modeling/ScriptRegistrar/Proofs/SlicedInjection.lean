import ScriptRegistrar.Injection
import ScriptRegistrar.Proofs.ConstructorUpdate
import ScriptRegistrar.Proofs.SlicedScan
import ScriptRegistrar.Proofs.Text.Trimming

/-!
# Injection by byte offsets

The constructor of a class is found by its byte offsets: what stands before it, its indentation,
its body and what follows are cut out of the text, and any cut may fail.  For every text the
updated text is the one that is found with cursors, so that none of the cuts fails.
-/

namespace ScriptRegistrar

open Text Text.Cursor Text.Recogniser Bracketed

namespace Constructor

/-- The byte offset behind the last line feed of a text. -/
def lineStart (before : List Char) : Nat :=
  byteLength (before.reverse.dropWhile (· ≠ '\n'))

/-- The blanks that the line of a byte offset starts with; `none` if they cannot be cut out. -/
def sliceIndent? (text : List Char) (start : Nat) : Option (List Char) := do
  let before ← sliceTo? text start
  let line ← slice? text (lineStart before) start
  slice? line 0 (byteLength line - byteLength (trimStart line))

/-- The byte offsets at which the heads of constructors start and their braces open. -/
def headOffsets (className text : List Char) : List (Nat × Nat) :=
  (occurrences (readHead? className) (Cursor.start text)).map fun head =>
    (head.1.offset, head.2.offset - 1)

/-- The first of some offsets without a tilde before it; `none` if the text before one of them
cannot be cut out. -/
def sliceSite? (text : List Char) : List (Nat × Nat) → Option (Option (Nat × Nat))
  | [] => some none
  | (start, opening) :: others =>
    (sliceTo? text start).bind fun before =>
      if (trimEnd before).getLast? = some '~' then sliceSite? text others
      else some (some (start, opening))

@[simp] theorem sliceIndent?_offset (start : Cursor) :
    sliceIndent? start.text start.offset =
      some ((start.passed.takeWhile (· ≠ '\n')).reverse.takeWhile isBlank) := by
  obtain ⟨passed, ahead⟩ := start
  have lineBegins : lineStart passed.reverse = byteLength (passed.dropWhile (· ≠ '\n')) := by
    rw [lineStart, List.reverse_reverse]
  have across : Across
      ⟨passed.dropWhile (· ≠ '\n'), (passed.takeWhile (· ≠ '\n')).reverse ++ ahead⟩
      (passed.takeWhile (· ≠ '\n')).reverse ⟨passed, ahead⟩ := by
    refine ⟨rfl, ?_⟩
    rw [List.reverse_reverse]
    exact List.takeWhile_append_dropWhile.symm
  have cutLine := slice?_of_across across
  rw [← across.text_eq] at cutLine
  generalize (passed.takeWhile (· ≠ '\n')).reverse = line at across cutLine ⊢
  have parts : line.takeWhile isBlank ++ trimStart line = line := List.takeWhile_append_dropWhile
  have lengths := congrArg byteLength parts
  rw [byteLength_append] at lengths
  have cutBlanks := slice?_append [] (line.takeWhile isBlank) (trimStart line)
  rw [List.nil_append, parts] at cutBlanks
  have width : byteLength line - byteLength (trimStart line) =
      byteLength [] + byteLength (line.takeWhile isBlank) := by
    rw [byteLength]
    omega
  rw [sliceIndent?, sliceTo?_offset]
  simp only [Option.bind_eq_bind, Option.bind_some, lineBegins]
  change (slice? _ (byteLength (passed.dropWhile (· ≠ '\n'))) _).bind _ = _
  change slice? _ (byteLength (passed.dropWhile (· ≠ '\n'))) _ = _ at cutLine
  rw [cutLine, Option.bind_some, width]
  exact cutBlanks

theorem isDestructor_eq (start : Cursor) :
    isDestructor start = decide ((trimEnd start.passed.reverse).getLast? = some '~') := by
  simp [isDestructor, trimEnd, List.getLast?_reverse]

theorem sliceSite?_map {text : List Char} {heads : List (Cursor × Cursor)}
    (inText : ∀ head ∈ heads, head.1.text = text) :
    sliceSite? text (heads.map fun head => (head.1.offset, head.2.offset - 1)) =
      some ((heads.find? fun head => !isDestructor head.1).map fun head =>
        (head.1.offset, head.2.offset - 1)) := by
  induction heads with
  | nil => rfl
  | cons head rest induction =>
      obtain ⟨here, others⟩ := List.forall_mem_cons.mp inText
      have before := sliceTo?_offset head.1
      rw [here] at before
      rw [List.map_cons, sliceSite?, before, Option.bind_some, List.find?_cons, induction others,
        isDestructor_eq]
      by_cases tilde : (trimEnd head.1.passed.reverse).getLast? = some '~'
      · simp [tilde]
      · simp [tilde]

theorem places_of_mem_heads {className text : List Char} {head : Cursor × Cursor}
    (occurs : head ∈ occurrences (readHead? className) (Cursor.start text)) :
    head.1.text = text ∧ ∃ before, head.2.passed = '\x7b' :: before ∧ head.2.text = text := by
  obtain ⟨start, opened⟩ := head
  obtain ⟨_, place, next, toPlace, read⟩ :=
    exists_of_mem_occurrences (goesForward_readHead? className) occurs
  obtain ⟨rfl, rfl, _, blanks, inside, across, _⟩ := across_of_readHead? read
  refine ⟨toPlace.text_eq, inside.reverse ++ '(' :: (blanks.reverse ++ (className.reverse ++
    start.passed)), ?_, (toPlace.trans across).text_eq⟩
  rw [across.2]
  simp

end Constructor

namespace Injection

/-- Updates the default constructor of a class in a text from which its parts are cut out. -/
def slice? (className statement : String) (messages : List Message) (text : List Char) :
    Option (Option (List Char)) :=
  (Constructor.sliceSite? text (Constructor.headOffsets className.toList text)).bind fun
    | none => some none
    | some (start, opening) =>
      match matchingByte? '\x7b' '\x7d' text opening with
      | none => some none
      | some closing => do
        let indent ← Constructor.sliceIndent? text start
        let body ← Text.slice? text (opening + 1) closing
        let front ← sliceTo? text (opening + 1)
        let behind ← sliceFrom? text closing
        some (some (front ++ renderBody (lineEnding text) indent
          (bodyLines className statement messages body) ++ behind))

/-- The text updated by byte offsets is the one updated with cursors. -/
@[simp] theorem slice?_eq (className statement : String) (messages : List Message)
    (text : List Char) :
    slice? className statement messages text =
      some (update? className statement messages text) := by
  have inText := fun head occurs =>
    (@Constructor.places_of_mem_heads className.toList text head occurs).1
  rw [slice?, Constructor.headOffsets, Constructor.sliceSite?_map inText, update?,
    Constructor.find?]
  cases first : (occurrences (Constructor.readHead? className.toList) (Cursor.start text)).find?
      (fun head => !Constructor.isDestructor head.1) with
  | none => rfl
  | some head =>
      obtain ⟨start, ⟨passed, ahead⟩⟩ := head
      obtain ⟨startInText, before, rfl, openedInText⟩ :=
        Constructor.places_of_mem_heads (List.mem_of_find?_eq_some first)
      dsimp only at startInText
      have step : Across ⟨before, '\x7b' :: ahead⟩ ['\x7b'] ⟨'\x7b' :: before, ahead⟩ := ⟨rfl, rfl⟩
      have inText : (Cursor.mk before ('\x7b' :: ahead)).text = text :=
        step.text_eq.symm.trans openedInText
      have behindBrace : byteLength ('\x7b' :: before) = byteLength before + 1 :=
        byteLength_opening isAscii_braces.1
      have matching := @matchingByte?_offset _ _ isAscii_braces.1 isAscii_braces.2 (by decide)
        before ahead
      have indent := Constructor.sliceIndent?_offset start
      have front := sliceTo?_offset ⟨'\x7b' :: before, ahead⟩
      rw [inText] at matching
      rw [startInText] at indent
      rw [openedInText] at front
      simp only [Cursor.offset, behindBrace] at front indent
      simp only [Option.map_some, Option.bind_some, Cursor.offset, behindBrace,
        Nat.add_sub_cancel, matching, braces?, Option.bind_eq_bind]
      cases closed : close? '\x7b' '\x7d' 0 ahead with
      | none => rfl
      | some parts =>
          obtain ⟨inside, behind⟩ := parts
          obtain ⟨body, rest, _⟩ := @slices_of_close? _ _ isAscii_braces.1 isAscii_braces.2 before
            _ _ _ closed
          rw [inText] at body rest
          simp only [Option.map_some, indent, body, front, rest, Option.bind_some]
          rfl

end Injection

end ScriptRegistrar
