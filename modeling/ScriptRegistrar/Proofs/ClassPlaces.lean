import ScriptRegistrar.Proofs.HeadRecognition
import ScriptRegistrar.Proofs.Text.Occurrences

/-!
# Where classes are declared

A scan says what each class of a header declares.  Where it declares it, the head and the body,
is listed here by the same steps, so that records and places correspond one to one.
-/

namespace ScriptRegistrar

open Text Text.Cursor Text.Recogniser

/-- The head and the body of a class in a header. -/
structure ClassPlace where
  head : ClassHead
  body : ClassBody
  deriving DecidableEq

namespace ClassBody

/-- The byte offset of the closing brace. -/
def closing (body : ClassBody) : Nat :=
  body.opening + 1 + byteLength body.text

/-- Whether a body stands in a text between an opening brace and the one that closes it. -/
structure StandsIn (text : List Char) (body : ClassBody) : Prop where
  place : ∃ before, text = before ++ '\x7b' :: (body.text ++ '\x7d' :: body.behind.ahead) ∧
    body.opening = byteLength before
  closes : Bracketed.braces? (body.text ++ '\x7d' :: body.behind.ahead) =
    some (body.text, body.behind.ahead)

end ClassBody

namespace Scanner

/-- The classes from a cursor on, found by the steps of a scan. -/
def placesFrom (scanner : Scanner) (cursor : Cursor) : List ClassPlace :=
  match ClassHead.next? scanner.baseClass cursor with
  | none => []
  | some (head, behindHead) =>
    match ClassBody.after head.name behindHead with
    | .error _ => []
    | .ok body =>
      ⟨head, body⟩ ::
        if body.behind.ahead.length < cursor.ahead.length then placesFrom scanner body.behind
        else []
termination_by cursor.ahead.length

/-- The classes of a header, in text order. -/
def places (scanner : Scanner) (text : String) : List ClassPlace :=
  scanner.placesFrom (Cursor.start text.toList)

/-- The record of a class at a place. -/
def recordAt (scanner : Scanner) (header : Path) (place : ClassPlace) : ScriptClass :=
  scanner.record header place.head.name place.body.text

theorem placesFrom_of_next? {scanner : Scanner} {cursor behindHead : Cursor} {head : ClassHead}
    (next : ClassHead.next? scanner.baseClass cursor = some (head, behindHead)) {body : ClassBody}
    (read : ClassBody.after head.name behindHead = .ok body) :
    scanner.placesFrom cursor = ⟨head, body⟩ :: scanner.placesFrom body.behind := by
  rw [placesFrom, next]
  simp only [read]
  rw [if_pos (ClassBody.length_behind_lt next read)]

theorem placesFrom_of_error {scanner : Scanner} {cursor behindHead : Cursor} {head : ClassHead}
    (next : ClassHead.next? scanner.baseClass cursor = some (head, behindHead))
    {failure : ScanFailure} (read : ClassBody.after head.name behindHead = .error failure) :
    scanner.placesFrom cursor = [] := by
  rw [placesFrom, next]
  simp only [read]

theorem placesFrom_of_none {scanner : Scanner} {cursor : Cursor}
    (next : ClassHead.next? scanner.baseClass cursor = none) : scanner.placesFrom cursor = [] := by
  rw [placesFrom, next]

theorem records_scanFrom (scanner : Scanner) (header : Path) (cursor : Cursor) :
    (scanner.scanFrom header cursor).records =
      (scanner.placesFrom cursor).map (scanner.recordAt header) := by
  induction cursor using scanner.scan_induction with
  | finished cursor next =>
      rw [scanFrom_of_none header next, placesFrom_of_none next]
      rfl
  | failed cursor head behindHead failure next read =>
      rw [placesFrom_of_error next read, scanFrom_of_error header next read]
      rfl
  | passed cursor head behindHead body next read induction =>
      rw [scanFrom_of_next? header next read, placesFrom_of_next? next read]
      simp only [List.map_cons, recordAt, induction]

theorem records_scanHeader (scanner : Scanner) (text : String) (header : Path) :
    (scanner.scanHeader text header).records =
      (scanner.places text).map (scanner.recordAt header) :=
  records_scanFrom scanner header _

end Scanner

theorem ClassBody.standsIn_of_after {className : String} {cursor : Cursor} {body : ClassBody}
    (read : after className cursor = .ok body) : StandsIn cursor.text body := by
  obtain ⟨before, opening, ⟨ahead, _⟩, closes⟩ := parts_of_after read
  refine ⟨⟨cursor.passed.reverse ++ before, ?_, ?_⟩, closes⟩
  · rw [Cursor.text, ahead]
    simp
  · rw [opening, ← byteLength_reverse]
    simp

theorem ClassBody.offsets_of_after {className : String} {cursor : Cursor} {body : ClassBody}
    (read : after className cursor = .ok body) :
    cursor.offset ≤ body.opening ∧ body.behind.offset = body.closing + 1 := by
  obtain ⟨before, opening, across, _⟩ := parts_of_after read
  have behind := across.offset_eq
  rw [byteLength_append, byteLength_reverse] at opening
  simp only [byteLength_append, byteLength, utf8Size_openingBrace, utf8Size_closingBrace] at behind
  unfold closing
  unfold Cursor.offset at behind ⊢
  constructor <;> omega

theorem ClassHead.read_of_next? {base : String} {cursor behindHead : Cursor} {head : ClassHead}
    (next : next? base cursor = some (head, behindHead)) :
    ∃ start between, read? base.toList start = some (head, behindHead) ∧
      Across cursor between behindHead := by
  obtain ⟨before, start, toStart, reads, _⟩ := first_of_firstFrom? next
  obtain ⟨_, toBehind, _⟩ := across_of_read? reads
  exact ⟨start, _, reads, toStart.trans toBehind⟩

namespace Scanner

/-- A class that is found behind a place has its body behind it. -/
theorem offset_le_of_mem_placesFrom {scanner : Scanner} {cursor : Cursor} {place : ClassPlace}
    (listed : place ∈ scanner.placesFrom cursor) : cursor.offset ≤ place.body.opening := by
  induction cursor using scanner.scan_induction with
  | finished cursor next =>
      rw [placesFrom_of_none next] at listed
      cases listed
  | failed cursor head behindHead failure next read =>
      rw [placesFrom_of_error next read] at listed
      cases listed
  | passed cursor head behindHead body next read induction =>
      obtain ⟨_, _, _, across⟩ := ClassHead.read_of_next? next
      have toHead := across.offset_eq
      have bodyOffsets := ClassBody.offsets_of_after read
      rw [placesFrom_of_next? next read] at listed
      rcases List.mem_cons.mp listed with rfl | later
      · exact Nat.le_trans (by omega) bodyOffsets.1
      · have further := induction later
        unfold ClassBody.closing at bodyOffsets
        omega

/-- The bodies of the classes of a header follow one another. -/
theorem pairwise_placesFrom (scanner : Scanner) (cursor : Cursor) :
    (scanner.placesFrom cursor).Pairwise
      fun first second => first.body.closing < second.body.opening := by
  induction cursor using scanner.scan_induction with
  | finished cursor next =>
      rw [placesFrom_of_none next]
      exact .nil
  | failed cursor head behindHead failure next read =>
      rw [placesFrom_of_error next read]
      exact .nil
  | passed cursor head behindHead body next read induction =>
      rw [placesFrom_of_next? next read]
      refine .cons ?_ induction
      intro place later
      have behind := offset_le_of_mem_placesFrom later
      have bodyOffsets := ClassBody.offsets_of_after read
      change body.closing < _
      omega

/-- Every class is read in the text: its head at some place, and its body behind the head. -/
theorem read_of_mem_placesFrom {scanner : Scanner} {cursor : Cursor} {place : ClassPlace}
    (listed : place ∈ scanner.placesFrom cursor) :
    ∃ start behindHead, behindHead.text = cursor.text ∧
      ClassHead.read? scanner.baseClass.toList start = some (place.head, behindHead) ∧
        ClassBody.after place.head.name behindHead = .ok place.body := by
  induction cursor using scanner.scan_induction with
  | finished cursor next =>
      rw [placesFrom_of_none next] at listed
      cases listed
  | failed cursor head behindHead failure next read =>
      rw [placesFrom_of_error next read] at listed
      cases listed
  | passed cursor head behindHead body next read induction =>
      obtain ⟨start, _, reads, across⟩ := ClassHead.read_of_next? next
      have sameText := across.text_eq
      rw [placesFrom_of_next? next read] at listed
      rcases List.mem_cons.mp listed with rfl | later
      · exact ⟨start, behindHead, sameText, reads, read⟩
      · obtain ⟨_, _, acrossBody⟩ := ClassBody.across_of_after read
        have further := induction later
        rwa [acrossBody.text_eq, sameText] at further

variable {scanner : Scanner} {text : String} {place : ClassPlace}
  (listed : place ∈ scanner.places text)

include listed

theorem standsIn_of_mem_places : place.body.StandsIn text.toList := by
  obtain ⟨_, _, sameText, _, read⟩ := read_of_mem_placesFrom listed
  have stands := ClassBody.standsIn_of_after read
  rw [sameText] at stands
  exact stands

theorem isWordText_of_mem_places : IsWordText place.head.name.toList := by
  obtain ⟨_, _, _, reads, _⟩ := read_of_mem_placesFrom listed
  exact ClassHead.isWordText_of_read? reads

theorem extract_of_mem_places :
    ClassBody.extract text place.head.name place.head.stop = .ok place.body := by
  obtain ⟨_, behindHead, sameText, reads, read⟩ := read_of_mem_placesFrom listed
  have found := atOffset?_offset behindHead
  rw [sameText, ← ClassHead.stop_of_read? reads] at found
  rw [ClassBody.extract, show atOffset? text.toList place.head.stop = some behindHead from found]
  exact read

end Scanner

end ScriptRegistrar
