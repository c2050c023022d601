import Mathlib.Order.Bounds.Basic
import ScriptRegistrar.Proofs.Text.ByteSlices

/-!
# Brackets counted in bytes

The byte that closes a bracket is the first one up to which as many brackets are closed as are
opened.  Up to any byte before it fewer are closed, so a counter that goes up with every opening
bracket and down with every closing one does not fall below zero on the way.
-/

namespace ScriptRegistrar.Text

/-- Whether the bytes up to a place close one bracket more than they open, and `depth` besides. -/
def IsLevel (opening closing : UInt8) (depth : Nat) (bytes : List UInt8) (place : Nat) : Prop :=
  place < bytes.length ∧ (bytes.take (place + 1)).count closing =
    (bytes.take (place + 1)).count opening + depth + 1

/-- Whether a search ends at the first level place, or finds nothing because there is none. -/
structure FindsLevel (opening closing : UInt8) (depth : Nat) (bytes : List UInt8)
    (search : Option Nat) : Prop where
  found : ∀ place, search = some place →
    IsLeast {place | IsLevel opening closing depth bytes place} place
  nowhere : search = none → ∀ place, ¬ IsLevel opening closing depth bytes place

/-- The search with a counter for the open brackets, of which `depth` are open in front of the byte
at `index`; `none` if a bracket closes where the counter is zero. -/
def countedClosing? (opening closing : UInt8) (depth index : Nat) :
    List UInt8 → Option (Option Nat)
  | [] => some none
  | byte :: rest =>
    if byte = opening then countedClosing? opening closing (depth + 1) (index + 1) rest
    else if byte = closing then
      match depth with
      | 0 => none
      | 1 => some (some index)
      | depth + 2 => countedClosing? opening closing (depth + 1) (index + 1) rest
    else countedClosing? opening closing depth (index + 1) rest

section

variable {opening closing byte : UInt8} {depth further place : Nat} {bytes rest : List UInt8}

theorem isLevel_cons_succ
    (shift : further + [byte].count closing = depth + [byte].count opening) :
    IsLevel opening closing depth (byte :: rest) (place + 1) ↔
      IsLevel opening closing further rest place := by
  have split : ∀ sign : UInt8, ((byte :: rest).take (place + 1 + 1)).count sign =
      [byte].count sign + (rest.take (place + 1)).count sign := by
    intro sign
    rw [List.take_succ_cons, ← List.singleton_append, List.count_append]
  unfold IsLevel
  rw [split, split, List.length_cons]
  constructor
  · rintro ⟨inside, level⟩
    exact ⟨by omega, by omega⟩
  · rintro ⟨inside, level⟩
    exact ⟨by omega, by omega⟩

theorem isLevel_cons_zero :
    IsLevel opening closing depth (byte :: rest) 0 ↔
      [byte].count closing = [byte].count opening + depth + 1 := by
  simp [IsLevel]

/-- Where the first byte is not level, the first place that is, or that there is none, is told by
the bytes behind it. -/
theorem FindsLevel.cons {search : Option Nat}
    (finds : FindsLevel opening closing further rest search)
    (notHere : ¬ IsLevel opening closing depth (byte :: rest) 0)
    (shift : further + [byte].count closing = depth + [byte].count opening) :
    FindsLevel opening closing depth (byte :: rest) (search.map (· + 1)) := by
  have levels : ∀ place, IsLevel opening closing depth (byte :: rest) place →
      ∃ previous, place = previous + 1 ∧ IsLevel opening closing further rest previous := by
    intro place level
    cases place with
    | zero => exact (notHere level).elim
    | succ previous => exact ⟨previous, rfl, (isLevel_cons_succ shift).mp level⟩
  constructor
  · intro place found
    obtain ⟨previous, foundRest, rfl⟩ := Option.map_eq_some_iff.mp found
    obtain ⟨level, least⟩ := finds.found previous foundRest
    refine ⟨(isLevel_cons_succ shift).mpr level, ?_⟩
    intro other otherLevel
    obtain ⟨otherPrevious, rfl, levelRest⟩ := levels other otherLevel
    exact Nat.succ_le_succ (least levelRest)
  · intro notFound place level
    obtain ⟨previous, _, levelRest⟩ := levels place level
    exact finds.nowhere (Option.map_eq_none_iff.mp notFound) previous levelRest

theorem count_take_succ {length : Nat} (inside : length < bytes.length) (sign : UInt8) :
    (bytes.take (length + 1)).count sign =
      (bytes.take length).count sign + [bytes[length]].count sign := by
  rw [← List.take_append_getElem inside, List.count_append]

theorem count_take_le {length : Nat}
    (nowhere : ∀ place < length, ¬ IsLevel opening closing depth bytes place) :
    (bytes.take length).count closing ≤ (bytes.take length).count opening + depth := by
  induction length with
  | zero => simp
  | succ length induction =>
      have before := induction fun place less => nowhere place (by omega)
      rcases Nat.lt_or_ge length bytes.length with inside | beyond
      · have atMostOne : [bytes[length]].count closing ≤ 1 := List.count_le_length
        have closings := count_take_succ inside closing
        have openings := count_take_succ inside opening
        have notLevel : ¬ _ = _ := fun level => nowhere length (by omega) ⟨inside, level⟩
        omega
      · rw [List.take_of_length_le beyond] at before
        rwa [List.take_of_length_le (by omega)]

theorem getElem?_of_isLeast
    (least : IsLeast {place | IsLevel opening closing depth bytes place} place) :
    bytes[place]? = some closing := by
  obtain ⟨inside, level⟩ := least.1
  have before := count_take_le fun other less level => Nat.not_le_of_lt less (least.2 level)
  have closings := count_take_succ inside closing
  have openings := count_take_succ inside opening
  have isClosing : closing ∈ [bytes[place]] := List.count_pos_iff.mp (by omega)
  rw [List.getElem?_eq_getElem inside, List.mem_singleton.mp isClosing]

variable (different : closing ≠ opening)

include different

theorem findsLevel_closingByte? (depth : Nat) (bytes : List UInt8) :
    FindsLevel opening closing depth bytes (closingByte? opening closing depth bytes) := by
  induction bytes generalizing depth with
  | nil =>
      constructor
      · rintro _ ⟨⟩
      · rintro _ place ⟨inside, _⟩
        exact Nat.not_lt_zero _ inside
  | cons byte rest induction =>
      by_cases isOpening : byte = opening
      · subst isOpening
        have counts : [byte].count closing = 0 ∧ [byte].count byte = 1 := by
          simp [different.symm]
        rw [closingByte?_opening]
        exact (induction (depth + 1)).cons (by rw [isLevel_cons_zero]; omega) (by omega)
      · by_cases isClosing : byte = closing
        · subst isClosing
          have counts : [byte].count byte = 1 ∧ [byte].count opening = 0 := by
            simp [different]
          cases depth with
          | zero =>
              rw [closingByte?_closing_zero different]
              constructor
              · rintro _ ⟨⟩
                have level : IsLevel opening byte 0 (byte :: rest) 0 :=
                  isLevel_cons_zero.mpr (by omega)
                exact ⟨level, fun _ _ => Nat.zero_le _⟩
              · rintro ⟨⟩
          | succ depth =>
              rw [closingByte?_closing_succ different]
              exact (induction depth).cons (by rw [isLevel_cons_zero]; omega) (by omega)
        · have counts : [byte].count closing = 0 ∧ [byte].count opening = 0 := by
            simp [isOpening, isClosing]
          rw [closingByte?_cons_of_ne isOpening isClosing]
          exact (induction depth).cons (by rw [isLevel_cons_zero]; omega) (by omega)

theorem closingByte?_eq_some_iff :
    closingByte? opening closing depth bytes = some place ↔
      IsLeast {place | IsLevel opening closing depth bytes place} place := by
  have finds := findsLevel_closingByte? different depth bytes
  refine ⟨finds.found place, ?_⟩
  intro least
  cases search : closingByte? opening closing depth bytes with
  | none => exact (finds.nowhere search place least.1).elim
  | some other => rw [(finds.found other search).unique least]

theorem closingByte?_eq_none_iff :
    closingByte? opening closing depth bytes = none ↔
      ∀ place, ¬ IsLevel opening closing depth bytes place := by
  have finds := findsLevel_closingByte? different depth bytes
  refine ⟨finds.nowhere, ?_⟩
  intro nowhere
  cases search : closingByte? opening closing depth bytes with
  | none => rfl
  | some place => exact (nowhere place (finds.found place search).1).elim

/-- The counter of the search never falls below zero. -/
theorem countedClosing?_eq (depth index : Nat) (bytes : List UInt8) :
    countedClosing? opening closing (depth + 1) index bytes =
      some ((closingByte? opening closing depth bytes).map (index + ·)) := by
  induction bytes generalizing depth index with
  | nil => rfl
  | cons byte rest induction =>
      have shift : ∀ further, ((closingByte? opening closing further rest).map (· + 1)).map
          (index + ·) = (closingByte? opening closing further rest).map (index + 1 + ·) := by
        intro further
        rw [Option.map_map]
        congr 1
        funext place
        show index + (place + 1) = index + 1 + place
        omega
      by_cases isOpening : byte = opening
      · subst isOpening
        rw [closingByte?_opening, shift, ← induction]
        simp [countedClosing?]
      · by_cases isClosing : byte = closing
        · subst isClosing
          cases depth with
          | zero =>
              rw [closingByte?_closing_zero different]
              simp [countedClosing?, different]
          | succ depth =>
              rw [closingByte?_closing_succ different, shift, ← induction]
              simp [countedClosing?, different]
        · rw [closingByte?_cons_of_ne isOpening isClosing, shift, ← induction]
          simp [countedClosing?, isOpening, isClosing]

end

end ScriptRegistrar.Text
