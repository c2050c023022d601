import ScriptRegistrar.Proofs.ClassPlaces
import ScriptRegistrar.Proofs.ConstructorLocality
import ScriptRegistrar.Proofs.HeadPattern

/-!
# The rounds of a scan

A scan goes on in rounds.  A round looks for the first head at or behind an offset and reads the
body behind it, and the next round starts where that body ends.  `Rounds` states this by offsets
alone, as a relation that has the rounds of one text as its only derivation.

A head starts before it ends and its body ends behind it, so the offsets grow.  As every round
takes the first head, a head that is left out starts inside what a round has passed, or is not
reached because the scan stops before it.
-/

namespace ScriptRegistrar

open Text Text.Cursor Text.Recogniser

namespace ClassHead

theorem Spelt.ne_nil {base text : List Char} (spelt : Spelt base text) : text ≠ [] := by
  cases spelt with
  | head known =>
      obtain ⟨first, others, rfl⟩ :=
        List.exists_cons_of_ne_nil (isWordText_of_isClassKeyword known).1
      simp

theorem Occurs.offset_lt {base : List Char} {start stop : Cursor} (occurs : Occurs base start stop) :
    start.offset < stop.offset := by
  obtain ⟨_, _, between, spelt, across⟩ := occurs
  exact across.offset_lt spelt.ne_nil

theorem IsFirst.start_lt_stop {base text : String} {offset : Nat} {head : ClassHead}
    (first : IsFirst base text offset head) : head.start < head.stop := by
  obtain ⟨start, stop, _, occurs, atStart, atStop⟩ := first.occurs
  rw [atStart, atStop]
  exact occurs.offset_lt

theorem IsFirst.stop_eq {base text : String} (isWordText : IsWordText base.toList) {offset : Nat}
    {head : ClassHead} (first : IsFirst base text offset head) {start stop : Cursor}
    (sameText : start.text = text.toList) (occurs : Occurs base.toList start stop)
    (atStart : head.start = start.offset) : head.stop = stop.offset := by
  obtain ⟨place, behindPlace, placeText, placeOccurs, atPlace, ends⟩ := first.occurs
  obtain rfl : place = start :=
    eq_of_offset_eq (placeText.trans sameText.symm) (atPlace.symm.trans atStart)
  obtain ⟨_, reads⟩ := read?_of_occurs isWordText placeOccurs
  obtain ⟨_, readsOther⟩ := read?_of_occurs isWordText occurs
  rw [reads] at readsOther
  have samePlace : behindPlace = stop := congrArg Prod.snd (Option.some.inj readsOther)
  rw [ends, samePlace]

end ClassHead

namespace ClassBody

variable {text className : String} {offset : Nat}

theorem offsets_of_extract {body : ClassBody} (read : extract text className offset = .ok body) :
    offset ≤ body.opening ∧ body.opening < body.stop ∧ body.stop ≤ byteLength text.toList := by
  rw [extract] at read
  split at read
  · cases read
  · rename_i cursor found
    obtain ⟨between, across, length⟩ := across_of_advance? found
    have cursorOffset := across.offset_eq
    obtain ⟨_, _, toBehind⟩ := across_of_after read
    obtain ⟨behind, ends⟩ := offsets_of_after read
    have inside := body.behind.offset_le_byteLength
    rw [toBehind.text_eq, across.text_eq] at inside
    have startOffset : (Cursor.start text.toList).offset = 0 := rfl
    change cursor.offset = (Cursor.start text.toList).offset + _ at cursorOffset
    change body.behind.offset ≤ byteLength text.toList at inside
    unfold closing at ends
    unfold stop
    omega

theorem className_of_after {cursor : Cursor} {failure : ScanFailure}
    (fails : after className cursor = .error failure) : failure.className = className := by
  rcases after_cases className cursor with ⟨_, missing⟩ | ⟨_, rest, _, _, reads⟩
  · rw [missing] at fails
    cases fails
    rfl
  · rw [reads] at fails
    cases closed : Bracketed.braces? rest with
    | none =>
        rw [closed] at fails
        cases fails
        rfl
    | some parts =>
        rw [closed] at fails
        cases fails

theorem className_of_extract {failure : ScanFailure}
    (fails : extract text className offset = .error failure) : failure.className = className := by
  rw [extract] at fails
  split at fails
  · cases fails
    rfl
  · exact className_of_after fails

end ClassBody

namespace Scanner

/-- The rounds of a scan from an offset on: the classes they find, and the head whose body cannot
be read if there is one. -/
inductive Rounds (scanner : Scanner) (text : String) :
    Nat → List ClassPlace → Option (ClassHead × ScanFailure) → Prop where
  | finished {offset : Nat} (nothing : ClassHead.find? scanner.baseClass text offset = none) :
      Rounds scanner text offset [] none
  | failed {offset : Nat} {head : ClassHead} {failure : ScanFailure}
      (found : ClassHead.find? scanner.baseClass text offset = some head)
      (fails : ClassBody.extract text head.name head.stop = .error failure) :
      Rounds scanner text offset [] (some (head, failure))
  | passed {offset : Nat} {head : ClassHead} {body : ClassBody} {places : List ClassPlace}
      {ending : Option (ClassHead × ScanFailure)}
      (found : ClassHead.find? scanner.baseClass text offset = some head)
      (read : ClassBody.extract text head.name head.stop = .ok body)
      (others : Rounds scanner text body.stop places ending) :
      Rounds scanner text offset (⟨head, body⟩ :: places) ending

namespace Rounds

variable {scanner : Scanner} {text : String} {offset : Nat} {places : List ClassPlace}
  {ending : Option (ClassHead × ScanFailure)}

/-- A text has no other rounds. -/
theorem unique (rounds : scanner.Rounds text offset places ending) {others : List ClassPlace}
    {otherEnding : Option (ClassHead × ScanFailure)}
    (otherRounds : scanner.Rounds text offset others otherEnding) :
    others = places ∧ otherEnding = ending := by
  induction rounds generalizing others with
  | finished nothing =>
      cases otherRounds with
      | finished => exact ⟨rfl, rfl⟩
      | failed found => cases nothing.symm.trans found
      | passed found => cases nothing.symm.trans found
  | failed found fails =>
      cases otherRounds with
      | finished nothing => cases nothing.symm.trans found
      | failed otherFound otherFails =>
          cases found.symm.trans otherFound
          cases fails.symm.trans otherFails
          exact ⟨rfl, rfl⟩
      | passed otherFound read =>
          cases found.symm.trans otherFound
          cases fails.symm.trans read
  | passed found read _ induction =>
      cases otherRounds with
      | finished nothing => cases nothing.symm.trans found
      | failed otherFound fails =>
          cases found.symm.trans otherFound
          cases read.symm.trans fails
      | passed otherFound otherRead further =>
          cases found.symm.trans otherFound
          cases read.symm.trans otherRead
          obtain ⟨rfl, rfl⟩ := induction further
          exact ⟨rfl, rfl⟩

theorem className_eq (rounds : scanner.Rounds text offset places ending) :
    ∀ failed ∈ ending, failed.2.className = failed.1.name := by
  induction rounds with
  | finished => simp
  | failed found fails => simpa using ClassBody.className_of_extract fails
  | passed _ _ _ induction => exact induction

variable (base : IsWordText scanner.baseClass.toList)

include base

theorem offsets_of_passed {head : ClassHead} {body : ClassBody}
    (found : ClassHead.find? scanner.baseClass text offset = some head)
    (read : ClassBody.extract text head.name head.stop = .ok body) :
    offset ≤ head.start ∧ head.start < head.stop ∧ head.stop < body.stop ∧
      body.stop ≤ byteLength text.toList := by
  have first := ClassHead.isFirst_of_find? base found
  have forward := first.start_lt_stop
  have behind := first.behind
  have offsets := ClassBody.offsets_of_extract read
  omega

theorem offsets_of_mem (rounds : scanner.Rounds text offset places ending) :
    ∀ place ∈ places, offset ≤ place.head.start ∧ place.head.start < place.body.stop ∧
      place.body.stop ≤ byteLength text.toList := by
  induction rounds with
  | finished => simp
  | failed => simp
  | passed found read _ induction =>
      have offsets := offsets_of_passed base found read
      intro place listed
      rcases List.mem_cons.mp listed with rfl | later
      · simp only
        omega
      · have further := induction place later
        omega

theorem apart (rounds : scanner.Rounds text offset places ending) :
    places.Pairwise fun first second => first.body.stop ≤ second.head.start := by
  induction rounds with
  | finished => exact .nil
  | failed => exact .nil
  | passed _ _ others induction =>
      exact .cons (fun place later => (others.offsets_of_mem base place later).1) induction

theorem increasing (rounds : scanner.Rounds text offset places ending) :
    (offset :: places.map (·.body.stop)).Pairwise (· < ·) := by
  induction rounds with
  | finished => simp
  | failed => simp
  | passed found read others induction =>
      have offsets := offsets_of_passed base found read
      refine .cons ?_ induction
      intro stop later
      rcases List.mem_cons.mp later with rfl | further
      · show _ < _
        simp only
        omega
      · obtain ⟨place, listed, rfl⟩ := List.mem_map.mp further
        have behind := others.offsets_of_mem base place listed
        show _ < _
        omega

/-- A head that stands at or behind the offset the rounds start from is found, or starts inside a
class that is found, or starts at or behind the head that ends the rounds. -/
theorem accounts (rounds : scanner.Rounds text offset places ending) {start stop : Cursor}
    (sameText : start.text = text.toList)
    (occurs : ClassHead.Occurs scanner.baseClass.toList start stop)
    (behind : offset ≤ start.offset) :
    (∃ place ∈ places, place.head.start = start.offset ∧ place.head.stop = stop.offset) ∨
      (∃ place ∈ places, place.head.start < start.offset ∧ start.offset < place.body.stop) ∨
      ∃ failed ∈ ending, failed.1.start ≤ start.offset := by
  induction rounds with
  | finished nothing =>
      exact absurd (ClassHead.lt_of_find?_eq_none base nothing sameText occurs) (by omega)
  | failed found =>
      have first := ClassHead.isFirst_of_find? base found
      exact Or.inr (Or.inr ⟨_, rfl, first.first start stop sameText occurs behind⟩)
  | @passed offset head body places ending found read _ induction =>
      have first := ClassHead.isFirst_of_find? base found
      rcases Nat.lt_or_ge start.offset body.stop with inside | outside
      · rcases Nat.eq_or_lt_of_le (first.first start stop sameText occurs behind) with
          atHead | behindHead
        · exact Or.inl ⟨⟨head, body⟩, List.mem_cons_self, atHead,
            first.stop_eq base sameText occurs atHead⟩
        · exact Or.inr (Or.inl ⟨⟨head, body⟩, List.mem_cons_self, behindHead, inside⟩)
      · rcases induction outside with ⟨place, listed, isHead⟩ | ⟨place, listed, starts⟩ | failing
        · exact Or.inl ⟨place, List.mem_cons_of_mem _ listed, isHead⟩
        · exact Or.inr (Or.inl ⟨place, List.mem_cons_of_mem _ listed, starts⟩)
        · exact Or.inr (Or.inr failing)

end Rounds

theorem extract_of_next? {base text : String} {cursor behindHead : Cursor} {head : ClassHead}
    (sameText : cursor.text = text.toList)
    (next : ClassHead.next? base cursor = some (head, behindHead)) :
    behindHead.text = text.toList ∧
      ClassBody.extract text head.name head.stop = ClassBody.after head.name behindHead := by
  obtain ⟨_, _, reads, across⟩ := ClassHead.read_of_next? next
  have behindText := across.text_eq.trans sameText
  have found := atOffset?_offset behindHead
  rw [behindText, ← ClassHead.stop_of_read? reads] at found
  refine ⟨behindText, ?_⟩
  rw [ClassBody.extract, found]

theorem exists_rounds {scanner : Scanner} {text : String} (header : Path) {cursor : Cursor}
    (sameText : cursor.text = text.toList) :
    ∃ ending, scanner.Rounds text cursor.offset (scanner.placesFrom cursor) ending ∧
      (scanner.scanFrom header cursor).failure = ending.map (·.2) := by
  have search : ∀ {cursor : Cursor}, cursor.text = text.toList →
      ClassHead.find? scanner.baseClass text cursor.offset =
        (ClassHead.next? scanner.baseClass cursor).map (·.1) := by
    intro cursor sameText
    rw [ClassHead.find?, ← sameText, atOrAfter?_offset, Option.bind_some]
  induction cursor using scanner.scan_induction with
  | finished cursor next =>
      rw [placesFrom_of_none next, scanFrom_of_none header next]
      exact ⟨none, .finished ((search sameText).trans (by rw [next]; rfl)), rfl⟩
  | failed cursor head behindHead failure next read =>
      obtain ⟨_, behind⟩ := extract_of_next? sameText next
      rw [placesFrom_of_error next read, scanFrom_of_error header next read]
      exact ⟨some (head, failure), .failed ((search sameText).trans (by rw [next]; rfl))
        (behind.trans read), rfl⟩
  | passed cursor head behindHead body next read induction =>
      obtain ⟨behindText, behind⟩ := extract_of_next? sameText next
      obtain ⟨between, _, across⟩ := ClassBody.across_of_after read
      obtain ⟨ending, rounds, failure⟩ := induction (across.text_eq.trans behindText)
      rw [placesFrom_of_next? next read, scanFrom_of_next? header next read]
      exact ⟨ending, .passed ((search sameText).trans (by rw [next]; rfl)) (behind.trans read)
        rounds, failure⟩

end Scanner

namespace Generator

/-- The scan of a header comes to its end in rounds whose offsets grow and stay in the text.  The
classes they find have a record each, in text order, and do not overlap; a head that stands in the
text is the head of such a class, or starts inside one, or does not start before the head whose
class the failure names. -/
theorem scanHeader_rounds (generator : Generator) (text : String) (header : Path) :
    let scanner := generator.scanner
    let places := scanner.places text
    ∃ ending,
      (∀ others otherEnding, scanner.Rounds text 0 others otherEnding ↔
        others = places ∧ otherEnding = ending) ∧
      (scanner.scanHeader text header).records = places.map (scanner.recordAt header) ∧
      (scanner.scanHeader text header).failure = ending.map (·.2) ∧
      (∀ failed ∈ ending, failed.2.className = failed.1.name) ∧
      (0 :: places.map (·.body.stop)).Pairwise (· < ·) ∧
      (∀ place ∈ places, place.head.start < place.body.stop ∧
        place.body.stop ≤ byteLength text.toList) ∧
      places.Pairwise (fun first second => first.body.stop ≤ second.head.start) ∧
      ∀ start stop, start.text = text.toList →
        ClassHead.Occurs scanner.baseClass.toList start stop →
          (∃ place ∈ places, place.head.start = start.offset ∧ place.head.stop = stop.offset) ∨
          (∃ place ∈ places, place.head.start < start.offset ∧ start.offset < place.body.stop) ∨
          ∃ failed ∈ ending, failed.1.start ≤ start.offset := by
  have base := generator.isWordText_baseClass
  obtain ⟨ending, rounds, failure⟩ :=
    @Scanner.exists_rounds generator.scanner text header (Cursor.start text.toList) rfl
  refine ⟨ending, ?_, Scanner.records_scanHeader _ text header, failure, rounds.className_eq,
    rounds.increasing base, ?_, rounds.apart base, ?_⟩
  · intro others otherEnding
    exact ⟨rounds.unique, fun ⟨samePlaces, sameEnding⟩ => by rw [samePlaces, sameEnding]; exact rounds⟩
  · exact fun place listed => (rounds.offsets_of_mem base place listed).2
  · exact fun start stop sameText occurs =>
      rounds.accounts base sameText occurs (Nat.zero_le _)

/-- A class that is declared in the body of another one is left out. -/
theorem scanHeader_rounds_lock :
    let generator : Generator := ⟨{ baseClass := "B" }, .engineDefault, rfl⟩
    let text := "class Door:public B\x7bclass Lock:public B\x7b\x7d\x7d"
    let start : Cursor :=
      ⟨"class Door:public B\x7b".toList.reverse, "class Lock:public B\x7b\x7d\x7d".toList⟩
    (generator.scanner.scanHeader text ⟨"Door.h"⟩).records.map (·.name) = ["Door"] ∧
      ∃ stop, ClassHead.Occurs "B".toList start stop ∧
        ∃ place ∈ generator.scanner.places text,
          place.head.start < start.offset ∧ start.offset < place.body.stop := by
  intro generator text start
  have isWordText : IsWordText "B".toList := ⟨by decide, List.all_eq_true.mp (by decide)⟩
  have reads : (ClassHead.read? "B".toList start).isSome = true := by decide +kernel
  obtain ⟨⟨head, stop⟩, read⟩ := Option.isSome_iff_exists.mp reads
  have occurs := (ClassHead.occurs_of_read? isWordText read).1
  refine ⟨by decide +kernel, stop, occurs, ?_⟩
  obtain ⟨ending, _, _, failure, _, _, _, _, accounts⟩ :=
    scanHeader_rounds generator text ⟨"Door.h"⟩
  rcases accounts start stop (by decide +kernel) occurs with
    ⟨place, listed, atHead, _⟩ | inside | ⟨failed, isEnding, _⟩
  · have elsewhere : ∀ place ∈ generator.scanner.places text, place.head.start ≠ start.offset := by
      decide +kernel
    exact absurd atHead (elsewhere place listed)
  · exact inside
  · have complete : (generator.scanner.scanHeader text ⟨"Door.h"⟩).failure = none := by
      decide +kernel
    rw [complete, isEnding] at failure
    cases failure

end Generator

end ScriptRegistrar
