import ScriptRegistrar.Proofs.MemberPlaces
import ScriptRegistrar.Proofs.Text.ByteSlices

/-!
# Scanning by byte offsets

A scan moves cursors, which never leave their text.  Here the same scan keeps byte offsets: it
finds closing brackets in the bytes, and cuts the body of a class and the parameters of a handler
out of the text, where any cut may fail.  For every text it finds what the scan with cursors finds,
so that none of its cuts fails.
-/

namespace ScriptRegistrar

open Text Text.Cursor Text.Recogniser Bracketed

theorem isAscii_braces : IsAscii '\x7b' ∧ IsAscii '\x7d' :=
  ⟨by decide, by decide⟩

theorem isAscii_parentheses : IsAscii '(' ∧ IsAscii ')' :=
  ⟨by decide, by decide⟩

section

variable {opening closing : Char} (openingAscii : IsAscii opening) (closingAscii : IsAscii closing)
  (different : closing ≠ opening) {passed rest : List Char}

include openingAscii closingAscii different

/-- The byte that closes a bracket, for a place in front of the bracket. -/
theorem matchingByte?_offset :
    matchingByte? opening closing (Cursor.mk passed (opening :: rest)).text (byteLength passed) =
      (close? opening closing 0 rest).map fun parts =>
        byteLength passed + 1 + byteLength parts.1 := by
  have found := atOffset?_offset ⟨passed, opening :: rest⟩
  have matching := matchingByte?_eq openingAscii closingAscii different
    (String.ofList (Cursor.mk passed (opening :: rest)).text) (byteLength passed)
  rw [String.toList_ofList] at matching
  rw [matching, ClassBody.closingOffset?, String.toList_ofList]
  change atOffset? _ (byteLength passed) = _ at found
  rw [found]
  simp only [Option.bind_eq_bind, Option.bind_some, if_true, utf8Size_of_isAscii openingAscii]
  cases close? opening closing 0 rest <;> rfl

omit closingAscii different in
@[simp] theorem byteLength_opening : byteLength (opening :: passed) = byteLength passed + 1 := by
  rw [byteLength, utf8Size_of_isAscii openingAscii, Nat.add_comm]

end

/-- The text between brackets can be cut out, and so can the text from the closing one on and the
text behind it. -/
theorem slices_of_close? {opening closing : Char} (openingAscii : IsAscii opening)
    (closingAscii : IsAscii closing) {passed rest inside behind : List Char}
    (closed : close? opening closing 0 rest = some (inside, behind)) :
    slice? (Cursor.mk passed (opening :: rest)).text (byteLength passed + 1)
        (byteLength passed + 1 + byteLength inside) = some inside ∧
      sliceFrom? (Cursor.mk passed (opening :: rest)).text
        (byteLength passed + 1 + byteLength inside) = some (closing :: behind) ∧
      sliceFrom? (Cursor.mk passed (opening :: rest)).text
        (byteLength passed + 1 + byteLength inside + 1) = some behind := by
  have parts := append_of_close? closed
  let atClosing : Cursor := ⟨inside.reverse ++ opening :: passed, closing :: behind⟩
  let atBehind : Cursor := ⟨closing :: atClosing.passed, behind⟩
  have toInside : Across ⟨passed, opening :: rest⟩ [opening] ⟨opening :: passed, rest⟩ :=
    ⟨rfl, rfl⟩
  have toClosing : Across ⟨opening :: passed, rest⟩ inside atClosing := ⟨parts, rfl⟩
  have toBehind : Across atClosing [closing] atBehind := ⟨rfl, rfl⟩
  have first := toInside.offset_eq
  have second := toClosing.offset_eq
  have third := toBehind.offset_eq
  simp only [byteLength, utf8Size_of_isAscii openingAscii, utf8Size_of_isAscii closingAscii]
    at first third
  have cut := slice?_of_across toClosing
  have cutFrom := sliceFrom?_offset atClosing
  have cutBehind := sliceFrom?_offset atBehind
  rw [toInside.text_eq, second, first] at cut
  rw [(toInside.trans toClosing).text_eq, second, first] at cutFrom
  rw [((toInside.trans toClosing).trans toBehind).text_eq, third, second, first] at cutBehind
  exact ⟨cut, cutFrom, cutBehind⟩

namespace ClassBody

/-- A body by its text, the offset of its opening brace and the offset behind its closing one. -/
structure Slice where
  text : List Char
  opening : Nat
  stop : Nat

def slice (body : ClassBody) : Slice :=
  ⟨body.text, body.opening, body.stop⟩

/-- The byte offset of the first brace that opens. -/
def openingOffset? (text : List Char) : Option Nat :=
  if '\x7b' ∈ text then some (byteLength (text.takeWhile (· ≠ '\x7b'))) else none

/-- The body behind a byte offset of a text; `none` if it cannot be cut out. -/
def slice? (text : List Char) (className : String) (offset : Nat) :
    Option (Except ScanFailure Slice) :=
  match (sliceFrom? text offset).bind openingOffset? with
  | none => some (.error (.missingBody className))
  | some gap =>
    match matchingByte? '\x7b' '\x7d' text (offset + gap) with
    | none => some (.error (.unbalancedBraces className))
    | some closing =>
      (Text.slice? text (offset + gap + 1) closing).map fun inside =>
        .ok ⟨inside, offset + gap, closing + 1⟩

@[simp] theorem openingOffset?_append {before rest : List Char} (notBefore : '\x7b' ∉ before) :
    openingOffset? (before ++ '\x7b' :: rest) = some (byteLength before) := by
  have run : (before ++ '\x7b' :: rest).takeWhile (· ≠ '\x7b') = before :=
    takeWhile_append_of_stops (fun character inside => by
      have different : character ≠ '\x7b' := fun same => notBefore (same ▸ inside)
      simpa using different) rfl
  rw [openingOffset?, if_pos (by simp), run]

@[simp] theorem byteLength_braces (inside passed : List Char) :
    byteLength ('\x7d' :: inside.reverse ++ '\x7b' :: passed) =
      byteLength passed + 1 + byteLength inside + 1 := by
  simp only [List.cons_append, byteLength_cons, byteLength_append, byteLength_reverse,
    utf8Size_openingBrace, utf8Size_closingBrace]
  omega

@[simp] theorem slice?_offset (className : String) (cursor : Cursor) :
    slice? cursor.text className cursor.offset =
      some ((after className cursor).map ClassBody.slice) := by
  rw [slice?, sliceFrom?_offset, Option.bind_some]
  rcases after_cases className cursor with ⟨noBrace, shape⟩ | ⟨before, rest, notBefore, ahead, shape⟩
  · rw [openingOffset?, if_neg noBrace, shape]
    rfl
  · have across : Across cursor before ⟨before.reverse ++ cursor.passed, '\x7b' :: rest⟩ :=
      ⟨ahead, rfl⟩
    have offset := across.offset_eq
    have matching := @matchingByte?_offset _ _ isAscii_braces.1 isAscii_braces.2 (by decide)
      (before.reverse ++ cursor.passed) rest
    rw [across.text_eq] at matching
    change byteLength (before.reverse ++ cursor.passed) = _ at offset
    rw [ahead, openingOffset?_append notBefore, shape]
    simp only [← offset, matching]
    cases closed : close? '\x7b' '\x7d' 0 rest with
    | none => simp only [braces?, closed, Option.map_none]; rfl
    | some parts =>
        obtain ⟨inside, behind⟩ := parts
        obtain ⟨cut, _, _⟩ := @slices_of_close? _ _ isAscii_braces.1 isAscii_braces.2
          (before.reverse ++ cursor.passed) _ _ _ closed
        rw [across.text_eq] at cut
        simp only [braces?, closed, Option.map_some, cut]
        change _ = some (Except.ok (Slice.mk _ _ (byteLength _)))
        rw [byteLength_braces]

/-- A body is cut out behind any byte offset of a text. -/
theorem slice?_eq (text className : String) (offset : Nat) :
    slice? text.toList className offset =
      some ((extract text className offset).map ClassBody.slice) := by
  rw [extract]
  cases found : atOffset? text.toList offset with
  | none =>
      rw [slice?, sliceFrom?, found]
      rfl
  | some cursor =>
      obtain ⟨between, across, rfl⟩ := across_of_advance? found
      have cut := slice?_offset className cursor
      have offset := across.offset_eq
      rw [across.text_eq] at cut
      rw [offset] at cut
      simpa [Cursor.offset, Cursor.text, byteLength] using cut

end ClassBody

namespace Text.Recogniser

variable {α : Type}

/-- What a recogniser reads, with the byte offset behind it. -/
def withStop (read : Recogniser α) : Recogniser (α × Nat) := fun cursor =>
  (read cursor).map fun result => ((result.1, result.2.offset), result.2)

theorem firstFrom?_withStop (read : Recogniser α) (passed ahead : List Char) :
    firstFrom? (withStop read) passed ahead =
      (firstFrom? read passed ahead).map fun result => ((result.1, result.2.offset), result.2) := by
  induction ahead generalizing passed with
  | nil => rfl
  | cons next rest induction =>
      rw [firstFrom?, firstFrom?, induction, withStop]
      cases read ⟨passed, next :: rest⟩ <;> rfl

@[simp] theorem map_occurrences_withStop (read : Recogniser α) (cursor : Cursor) :
    (occurrences (withStop read) cursor).map (·.1) = occurrences read cursor := by
  generalize length : cursor.ahead.length = bound
  induction bound using Nat.strongRecOn generalizing cursor with
  | ind bound induction =>
      rw [occurrences, occurrences, first?, first?, firstFrom?_withStop]
      cases firstFrom? read cursor.passed cursor.ahead with
      | none => rfl
      | some pair =>
          obtain ⟨found, next⟩ := pair
          dsimp only [Option.map_some]
          split
          · rename_i shorter
            rw [List.map_cons, induction next.ahead.length (by omega) next rfl]
          · rfl

theorem GoesForward.withStop {read : Recogniser α} (forward : GoesForward read) :
    GoesForward (withStop read) := by
  intro cursor found next reads
  obtain ⟨⟨other, place⟩, readsOther, equality⟩ := Option.map_eq_some_iff.mp reads
  cases equality
  exact forward _ _ _ readsOther

end Text.Recogniser

namespace Handler

/-- Whether a recogniser of heads ends behind the opening parenthesis, and says what follows it. -/
def EndsAtParenthesis (read? : Recogniser Head) : Prop :=
  ∀ cursor head next, read? cursor = some (head, next) →
    ∃ passed, next = ⟨'(' :: passed, head.behind⟩

theorem endsAtParenthesis_read? (label : List Char) : EndsAtParenthesis (Head.read? label) := by
  intro cursor head next read
  simp only [Head.read?, Option.bind_eq_bind, Option.bind_eq_some_iff] at read
  obtain ⟨_, _, _, _, _, _, behind, sign, equality⟩ := read
  simp only [Option.some.injEq, Prod.mk.injEq] at equality
  obtain ⟨rfl, rfl⟩ := equality
  obtain ⟨_, passed⟩ := sign?_eq_some_iff.mp sign
  exact ⟨_, congrArg (Cursor.mk · behind.ahead) passed⟩

theorem endsAtParenthesis_readHead? (markers : Markers) (rule : DiscoveryRule) :
    EndsAtParenthesis (rule.readHead? markers) := by
  intro cursor head next read
  cases rule with
  | marker =>
      simp only [DiscoveryRule.readHead?, Head.readMarked?, Option.bind_eq_bind,
        Option.bind_eq_some_iff] at read
      obtain ⟨_, _, _, _, _, _, _, _, declaration⟩ := read
      exact endsAtParenthesis_read? _ _ _ _ declaration
  | namedMarker =>
      simp only [DiscoveryRule.readHead?, Head.readNamed?, Option.bind_eq_bind,
        Option.bind_eq_some_iff] at read
      obtain ⟨_, _, _, _, _, _, _, _, _, _, _, _, declaration⟩ := read
      exact endsAtParenthesis_read? _ _ _ _ declaration
  | signature =>
      rw [DiscoveryRule.readHead?, Head.readBare?] at read
      split at read
      · exact endsAtParenthesis_read? _ _ _ _ read
      · cases read

/-- The declaration whose head ends at a byte offset of a body, if it is complete; `none` if its
parameters, or what follows them, cannot be cut out. -/
def sliceDeclaration? (body : List Char) (head : Head) : Nat → Option (Option Declaration)
  | 0 => some none
  | opening + 1 =>
    match matchingByte? '(' ')' body opening with
    | none => some none
    | some closing =>
      (sliceFrom? body (closing + 1)).bind fun behind =>
        if Head.endsDeclaration behind then
          (slice? body (opening + 1) closing).map fun parameters =>
            some ⟨head.label, head.function, parameters⟩
        else some none

/-- The complete declarations in a body whose heads `read?` recognises. -/
def sliceDeclarations? (read? : Recogniser Head) (body : List Char) : Option (List Declaration) :=
  ((occurrences (withStop read?) (Cursor.start body)).mapM fun pair =>
    sliceDeclaration? body pair.1 pair.2).map (·.filterMap id)

theorem sliceDeclaration?_offset (head : Head) (passed : List Char) :
    sliceDeclaration? (Cursor.mk passed ('(' :: head.behind)).text head (byteLength passed + 1) =
      some head.complete? := by
  have matching := @matchingByte?_offset _ _ isAscii_parentheses.1 isAscii_parentheses.2
    (by decide) passed head.behind
  rw [sliceDeclaration?, matching, Head.complete?, parentheses?]
  cases closed : close? '(' ')' 0 head.behind with
  | none => rfl
  | some parts =>
      obtain ⟨inside, behind⟩ := parts
      obtain ⟨cut, _, cutBehind⟩ := @slices_of_close? _ _ isAscii_parentheses.1
        isAscii_parentheses.2 passed _ _ _ closed
      simp only [Option.map_some, cut, cutBehind, Option.bind_some, Option.bind_eq_bind]
      cases Head.endsDeclaration behind <;> rfl

theorem mapM_eq_some_map {α β : Type} {f : α → Option β} {g : α → β} {members : List α}
    (same : ∀ member ∈ members, f member = some (g member)) :
    members.mapM f = some (members.map g) := by
  induction members with
  | nil => rfl
  | cons member rest induction =>
      obtain ⟨first, others⟩ := List.forall_mem_cons.mp same
      rw [List.mapM_cons, first, induction others]
      rfl

@[simp] theorem sliceDeclarations?_eq {read? : Recogniser Head} (forward : GoesForward read?)
    (ends : EndsAtParenthesis read?) (body : List Char) :
    sliceDeclarations? read? body = some (Declaration.all read? body) := by
  have cut : ∀ pair ∈ occurrences (withStop read?) (Cursor.start body),
      sliceDeclaration? body pair.1 pair.2 = some pair.1.complete? := by
    rintro ⟨head, stop⟩ occurs
    obtain ⟨_, place, next, toPlace, reads⟩ := exists_of_mem_occurrences forward.withStop occurs
    obtain ⟨⟨other, behind⟩, readsOther, equality⟩ := Option.map_eq_some_iff.mp reads
    simp only [Prod.mk.injEq] at equality
    obtain ⟨⟨rfl, rfl⟩, rfl⟩ := equality
    obtain ⟨_, toNext⟩ := forward _ _ _ readsOther
    have inBody := (toPlace.trans toNext).text_eq
    obtain ⟨passed, rfl⟩ := ends _ _ _ readsOther
    have step : Across ⟨passed, '(' :: other.behind⟩ ['('] ⟨'(' :: passed, other.behind⟩ :=
      ⟨rfl, rfl⟩
    have complete := sliceDeclaration?_offset other passed
    rw [← step.text_eq, inBody] at complete
    rw [Cursor.offset, byteLength_opening isAscii_parentheses.1]
    exact complete
  rw [sliceDeclarations?, mapM_eq_some_map cut, Declaration.all,
    ← map_occurrences_withStop read?, Option.map_some, List.filterMap_map, List.filterMap_map]
  rfl

end Handler

namespace Members

variable {markers : Markers} {table : SignatureTable} {body : List Char}

/-- The members of a body whose declarations are cut out of it. -/
def slice? (markers : Markers) (table : SignatureTable) (body : List Char) : Option Members :=
  if isSuppressed markers body then some { suppressed := true }
  else do
    let declarations (rule : DiscoveryRule) :=
      Handler.sliceDeclarations? (rule.readHead? markers) body
    let marked ← declarations .marker
    let named ← declarations .namedMarker
    let bare ← declarations .signature
    some
      { messages := (messagesBy .signature table bare).foldl credit
          ((messagesBy .namedMarker table named).foldl credit
            ((messagesBy .marker table marked).foldl credit []))
        properties := PropertyDeclaration.all markers.property.toList body }

theorem slice?_eq (markers : Markers) (table : SignatureTable) (body : List Char) :
    slice? markers table body = some (scan markers table body) := by
  have cut : ∀ rule : DiscoveryRule,
      Handler.sliceDeclarations? (rule.readHead? markers) body =
        some (Handler.Declaration.all (rule.readHead? markers) body) := fun rule =>
    Handler.sliceDeclarations?_eq (goesForward_readHead? rule)
      (Handler.endsAtParenthesis_readHead? markers rule) body
  rw [slice?, scan]
  split
  · rfl
  · simp only [cut, Option.bind_eq_bind, Option.bind_some, messagesOf, found_eq]

end Members

namespace Scanner

/-- The classes of a header from a byte offset on, found by offsets. -/
def sliceFrom? (scanner : Scanner) (header : Path) (text : List Char) (offset : Nat) :
    Option HeaderScan :=
  match (Cursor.atOrAfter? text offset).bind (ClassHead.next? scanner.baseClass) with
  | none => some {}
  | some (head, _) =>
    match ClassBody.slice? text head.name head.stop with
    | none => none
    | some (.error failure) => some { failure := some failure }
    | some (.ok body) =>
      if offset < body.stop ∧ body.stop ≤ byteLength text then do
        let members ← Members.slice? scanner.markers scanner.table body.text
        let others ← sliceFrom? scanner header text body.stop
        let record : ScriptClass :=
          { name := head.name, header, excluded := members.suppressed
            messages := members.messages, properties := members.properties }
        some { others with records := record :: others.records }
      else none
termination_by byteLength text - offset

/-- A scan by byte offsets finds from every place on what the scan with cursors finds. -/
@[simp] theorem sliceFrom?_offset (scanner : Scanner) (header : Path) (cursor : Cursor) :
    scanner.sliceFrom? header cursor.text cursor.offset =
      some (scanner.scanFrom header cursor) := by
  have cut : ∀ {cursor behindHead : Cursor} {head : ClassHead},
      ClassHead.next? scanner.baseClass cursor = some (head, behindHead) →
        ClassBody.slice? cursor.text head.name head.stop =
          some ((ClassBody.after head.name behindHead).map ClassBody.slice) := by
    intro cursor behindHead head next
    obtain ⟨_, _, reads, toHead⟩ := ClassHead.read_of_next? next
    rw [← toHead.text_eq, ClassHead.stop_of_read? reads]
    exact ClassBody.slice?_offset head.name behindHead
  induction cursor using scanner.scan_induction with
  | finished cursor next =>
      simp [sliceFrom?, next, scanFrom_of_none header next]
  | failed cursor head behindHead failure next read =>
      rw [sliceFrom?, atOrAfter?_offset, Option.bind_some, next]
      dsimp only
      rw [cut next, read, scanFrom_of_error header next read]
      rfl
  | passed cursor head behindHead body next read induction =>
      obtain ⟨_, _, reads, toHead⟩ := ClassHead.read_of_next? next
      obtain ⟨between, nonempty, toBody⟩ := ClassBody.across_of_after read
      have whole := toHead.trans toBody
      have inText := whole.text_eq
      have stops : cursor.offset < body.behind.offset ∧
          body.behind.offset ≤ byteLength cursor.text := by
        constructor
        · exact whole.offset_lt (by simp [nonempty])
        · rw [← inText]
          exact offset_le_byteLength body.behind
      rw [inText] at induction
      rw [sliceFrom?, atOrAfter?_offset, Option.bind_some, next]
      dsimp only
      rw [cut next, read, scanFrom_of_next? header next read]
      dsimp only [Except.map, ClassBody.slice, ClassBody.stop]
      rw [if_pos stops, Members.slice?_eq, induction]
      rfl

/-- A scan of a header by byte offsets finds what the scan with cursors finds. -/
theorem slice?_eq (scanner : Scanner) (text : String) (header : Path) :
    scanner.sliceFrom? header text.toList 0 = some (scanner.scanHeader text header) :=
  sliceFrom?_offset scanner header (Cursor.start text.toList)

end Scanner

end ScriptRegistrar
