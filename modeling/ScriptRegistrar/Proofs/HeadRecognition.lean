import Mathlib.Data.Option.Basic
import ScriptRegistrar.HeaderScan
import ScriptRegistrar.Proofs.MemberRecognition

/-!
# How classes are recognised

The head of a class begins with the word `class` or `struct`, and reading it passes at least that
word.  So each round of a scan goes on further ahead, and the scan of a header is the record of
its first class and the scan of what follows its body.
-/

namespace ScriptRegistrar

open Text Text.Cursor Text.Recogniser

namespace ClassHead

/-- A word that a head begins with. -/
def IsClassKeyword (word : List Char) : Prop :=
  word = "class".toList ∨ word = "struct".toList

theorem across_of_mem_behindBlanks {passed ahead : List Char} {next : Cursor}
    (member : next ∈ behindBlanks passed ahead) :
    ∃ between, Across ⟨passed, ahead⟩ between next := by
  induction ahead generalizing passed with
  | nil => cases member
  | cons character rest induction =>
      rw [behindBlanks] at member
      split at member
      · rcases List.mem_append.mp member with later | here
        · obtain ⟨between, across⟩ := induction later
          exact ⟨character :: between, (show Across ⟨passed, character :: rest⟩ [character]
            ⟨character :: passed, rest⟩ from ⟨rfl, rfl⟩).trans across⟩
        · rw [List.mem_singleton.mp here]
          exact ⟨[character], rfl, rfl⟩
      · cases member

theorem across_of_base? {base : List Char} {cursor next : Cursor}
    (read : base? base cursor = some next) : Across cursor base next := by
  simp only [base?, Option.bind_eq_bind, Option.bind_eq_some_iff] at read
  obtain ⟨behind, literal, ends⟩ := read
  split at ends
  · cases ends
    exact literal?_eq_some_iff.mp literal
  · cases ends

theorem across_of_keyword {cursor next : Cursor}
    (read : (cursor.sign? "class" <|> cursor.sign? "struct") = some next) :
    ∃ word, IsClassKeyword word ∧ cursor.literal? word = some next := by
  cases isClass : cursor.sign? "class" with
  | some behind =>
      rw [isClass] at read
      exact ⟨_, Or.inl rfl, isClass.trans read⟩
  | none =>
      rw [isClass] at read
      exact ⟨_, Or.inr rfl, read⟩

theorem begins_read? (base : List Char) : BeginsWith IsClassKeyword (read? base) := by
  rintro cursor ⟨head, next⟩ read
  simp only [read?, Option.bind_eq_bind, Option.bind_eq_some_iff, Option.guard_eq_some'] at read
  obtain ⟨_, boundary, behindKeyword, keyword, declaration, blanks, _⟩ := read
  obtain ⟨word, known, literal⟩ := across_of_keyword keyword
  have isWordText : IsWordText word := by
    rcases known with rfl | rfl
    · exact ⟨by decide, List.all_eq_true.mp (by decide)⟩
    · exact ⟨by decide, List.all_eq_true.mp (by decide)⟩
  obtain ⟨outside, same⟩ := begins_of_word isWordText boundary literal (stops_of_blanks? blanks)
  rw [same]
  exact ⟨outside, known⟩

theorem not_isClassKeyword_nil : ¬ IsClassKeyword [] := by
  rintro (empty | empty) <;> exact absurd empty (by decide)

theorem across_of_read? {base : List Char} {cursor next : Cursor} {head : ClassHead}
    (read : read? base cursor = some (head, next)) :
    ∃ between, Across cursor between next ∧ between ≠ [] := by
  simp only [read?, Option.bind_eq_bind, Option.bind_eq_some_iff] at read
  obtain ⟨_, _, behindKeyword, keyword, declaration, blanks, name, _, behindColon, colon,
    behindAccess, access, stop, found, equality⟩ := read
  cases equality
  obtain ⟨word, known, literal⟩ := across_of_keyword keyword
  obtain ⟨_, start, base⟩ := List.exists_of_findSome?_eq_some found
  obtain ⟨between, toStart⟩ := across_of_mem_behindBlanks start
  refine ⟨_, (literal?_eq_some_iff.mp literal).trans ((across_of_blanks? blanks).1.trans
    ((across_passWhile declaration _).trans ((sign?_eq_some_iff.mp colon).trans
      ((across_passBlanks behindColon).trans ((sign?_eq_some_iff.mp access).trans
        (toStart.trans (across_of_base? base))))))), ?_⟩
  rcases known with rfl | rfl <;> simp

theorem stop_of_read? {base : List Char} {cursor next : Cursor} {head : ClassHead}
    (read : read? base cursor = some (head, next)) : head.stop = next.offset := by
  simp only [read?, Option.bind_eq_bind, Option.bind_eq_some_iff] at read
  obtain ⟨_, _, _, _, _, _, _, _, _, _, _, _, _, _, equality⟩ := read
  cases equality
  rfl

theorem mem_of_declaredName? {words : List (List Char)} {name : List Char}
    (declared : declaredName? words = some name) : name ∈ words := by
  rw [← List.mem_reverse]
  unfold declaredName? at declared
  split at declared
  · cases declared
  · rename_i only shape
    cases declared
    rw [shape]
    exact List.mem_cons_self
  · rename_i last previous others shape
    cases declared
    rw [shape]
    split
    · exact List.mem_cons_of_mem _ List.mem_cons_self
    · exact List.mem_cons_self

theorem isWordText_of_read? {base : List Char} {cursor next : Cursor} {head : ClassHead}
    (read : read? base cursor = some (head, next)) : IsWordText head.name.toList := by
  simp only [read?, Option.bind_eq_bind, Option.bind_eq_some_iff] at read
  obtain ⟨_, _, _, _, declaration, _, name, declared, _, _, _, _, _, _, equality⟩ := read
  cases equality
  have member := mem_of_declaredName? declared
  simp only [words, List.mem_filter, Bool.not_eq_true', List.isEmpty_eq_false_iff] at member
  refine ⟨by simpa using member.2, ?_⟩
  intro character letter
  obtain ⟨inRun, notBlank⟩ := mem_of_mem_fields member.1 character (by simpa using letter)
  have passes := List.all_eq_true.mp List.all_takeWhile character inRun
  simpa [notBlank] using passes

theorem advances_read? (base : List Char) : Advances (read? base) := by
  intro cursor head next read
  obtain ⟨between, across, nonempty⟩ := across_of_read? read
  exact across.length_ahead_lt nonempty

end ClassHead

/-- Behind a place with a brace the body reaches up to the brace that closes it. -/
theorem ClassBody.after_append (className : String) {passed before rest : List Char}
    (notBefore : '\x7b' ∉ before) :
    after className ⟨passed, before ++ '\x7b' :: rest⟩ = match Bracketed.braces? rest with
      | none => .error (.unbalancedBraces className)
      | some (inside, behind) =>
        .ok ⟨inside, byteLength (before.reverse ++ passed),
          ⟨'\x7d' :: inside.reverse ++ '\x7b' :: (before.reverse ++ passed), behind⟩⟩ := by
  have passes := @passWhile_append passed before ('\x7b' :: rest) (· ≠ '\x7b')
    (fun character inside => by
      have different : character ≠ '\x7b' := fun same => notBefore (same ▸ inside)
      simpa using different) rfl
  rw [after, passes]
  rfl

/-- What stands behind a place without a brace, and behind one with a brace. -/
theorem ClassBody.after_cases (className : String) (cursor : Cursor) :
    ('\x7b' ∉ cursor.ahead ∧ after className cursor = .error (.missingBody className)) ∨
      ∃ before rest, '\x7b' ∉ before ∧ cursor.ahead = before ++ '\x7b' :: rest ∧
        after className cursor = match Bracketed.braces? rest with
          | none => .error (.unbalancedBraces className)
          | some (inside, behind) =>
            .ok ⟨inside, byteLength (before.reverse ++ cursor.passed),
              ⟨'\x7d' :: inside.reverse ++ '\x7b' :: (before.reverse ++ cursor.passed), behind⟩⟩ := by
  obtain ⟨passed, ahead⟩ := cursor
  by_cases member : '\x7b' ∈ ahead
  · obtain ⟨before, rest, rfl, notBefore⟩ := List.eq_append_cons_of_mem member
    exact Or.inr ⟨before, rest, notBefore, rfl, after_append className notBefore⟩
  · have passes := @passWhile_append passed ahead [] (· ≠ '\x7b')
      (fun character inside => by
        have different : character ≠ '\x7b' := fun same => member (same ▸ inside)
        simpa using different) rfl
    rw [List.append_nil] at passes
    refine Or.inl ⟨member, ?_⟩
    rw [after, passes]

/-- What a body is read from: the text up to its opening brace, the body and its closing brace. -/
theorem ClassBody.parts_of_after {className : String} {cursor : Cursor} {body : ClassBody}
    (read : after className cursor = .ok body) :
    ∃ before, body.opening = byteLength (before.reverse ++ cursor.passed) ∧
      Across cursor (before ++ '\x7b' :: (body.text ++ ['\x7d'])) body.behind ∧
        Bracketed.braces? (body.text ++ '\x7d' :: body.behind.ahead) =
          some (body.text, body.behind.ahead) := by
  simp only [after] at read
  split at read
  · cases read
  · rename_i brace rest ahead
    split at read
    · cases read
    · rename_i inside behind closed
      cases read
      obtain ⟨aheadEq, passedEq⟩ := across_passWhile cursor (· ≠ '\x7b')
      have opens : brace = '\x7b' := by
        rcases cursor.ahead_passWhile_ne '\x7b' with nothing | ⟨_, shape⟩
        · rw [ahead] at nothing
          cases nothing
        · rw [ahead] at shape
          exact (List.cons.inj shape).1
      have parts := Bracketed.append_of_close? closed
      refine ⟨cursor.ahead.takeWhile (· ≠ '\x7b'), rfl, ⟨?_, ?_⟩, parts ▸ closed⟩
      · refine aheadEq.trans ?_
        rw [ahead, parts, opens]
        simp only [List.append_assoc, List.cons_append, List.nil_append]
      · rw [passedEq, opens]
        simp

theorem ClassBody.across_of_after {className : String} {cursor : Cursor} {body : ClassBody}
    (read : after className cursor = .ok body) :
    ∃ between, between ≠ [] ∧ Across cursor between body.behind := by
  obtain ⟨before, _, across, _⟩ := parts_of_after read
  exact ⟨_, by simp, across⟩

theorem ClassBody.length_behind_lt {base : String} {cursor behindHead : Cursor} {head : ClassHead}
    (next : ClassHead.next? base cursor = some (head, behindHead)) {body : ClassBody}
    (read : after head.name behindHead = .ok body) :
    body.behind.ahead.length < cursor.ahead.length := by
  obtain ⟨between, nonempty, across⟩ := across_of_after read
  have passes := across.length_ahead_lt nonempty
  have shorter := firstFrom?_advances (ClassHead.advances_read? _) next
  exact Nat.lt_trans passes shorter

namespace Scanner

theorem scanFrom_of_none {scanner : Scanner} (header : Path) {cursor : Cursor}
    (none : ClassHead.next? scanner.baseClass cursor = none) :
    scanner.scanFrom header cursor = {} := by
  rw [scanFrom, none]

theorem scanFrom_of_next? {scanner : Scanner} (header : Path) {cursor behindHead : Cursor}
    {head : ClassHead} (next : ClassHead.next? scanner.baseClass cursor = some (head, behindHead))
    {body : ClassBody} (read : ClassBody.after head.name behindHead = .ok body) :
    scanner.scanFrom header cursor =
      { scanner.scanFrom header body.behind with
        records := scanner.record header head.name body.text ::
          (scanner.scanFrom header body.behind).records } := by
  rw [scanFrom, next]
  simp only [read]
  rw [if_pos (ClassBody.length_behind_lt next read)]

theorem scanFrom_of_error {scanner : Scanner} (header : Path) {cursor behindHead : Cursor}
    {head : ClassHead} (next : ClassHead.next? scanner.baseClass cursor = some (head, behindHead))
    {failure : ScanFailure} (read : ClassBody.after head.name behindHead = .error failure) :
    scanner.scanFrom header cursor = { failure := some failure } := by
  rw [scanFrom, next]
  simp only [read]

/-- Induction along a scan: no class follows, or one follows without a body that can be read, or
one is read and the scan goes on behind it. -/
@[elab_as_elim]
theorem scan_induction (scanner : Scanner) {motive : Cursor → Prop}
    (finished : ∀ cursor, ClassHead.next? scanner.baseClass cursor = none → motive cursor)
    (failed : ∀ cursor head behindHead failure,
      ClassHead.next? scanner.baseClass cursor = some (head, behindHead) →
      ClassBody.after head.name behindHead = .error failure → motive cursor)
    (passed : ∀ cursor head behindHead body,
      ClassHead.next? scanner.baseClass cursor = some (head, behindHead) →
      ClassBody.after head.name behindHead = .ok body → motive body.behind → motive cursor)
    (cursor : Cursor) : motive cursor := by
  generalize length : cursor.ahead.length = bound
  induction bound using Nat.strongRecOn generalizing cursor with
  | ind bound induction =>
      cases next : ClassHead.next? scanner.baseClass cursor with
      | none => exact finished cursor next
      | some found =>
          obtain ⟨head, behindHead⟩ := found
          cases read : ClassBody.after head.name behindHead with
          | error failure => exact failed cursor head behindHead failure next read
          | ok body =>
              have shorter := ClassBody.length_behind_lt next read
              exact passed cursor head behindHead body next read
                (induction body.behind.ahead.length (by omega) body.behind rfl)

end Scanner

end ScriptRegistrar
