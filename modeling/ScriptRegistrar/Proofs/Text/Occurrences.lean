import ScriptRegistrar.Proofs.Text.CursorSteps
import ScriptRegistrar.Proofs.Text.WordSearch

/-!
# Where constructs occur

A search goes forward only, so that what it finds is read at some place ahead of it, in the same
text.
-/

namespace ScriptRegistrar.Text.Recogniser

open Cursor

/-- Whether a recogniser only moves forward. -/
def GoesForward (read : Recogniser α) : Prop :=
  ∀ cursor found next, read cursor = some (found, next) → ∃ between, Across cursor between next

/-- What a search finds is read at a place ahead, and nothing is read before it. -/
theorem first_of_firstFrom? {read : Cursor → Option α} {passed ahead : List Char} {found : α}
    (first : firstFrom? read passed ahead = some found) :
    ∃ before place, Across ⟨passed, ahead⟩ before place ∧ read place = some found ∧
      ∀ between other, Across ⟨passed, ahead⟩ between other → between.length < before.length →
        read other = none := by
  induction ahead generalizing passed with
  | nil => exact ⟨[], _, Across.refl _, first, fun _ _ _ less => (Nat.not_lt_zero _ less).elim⟩
  | cons character rest induction =>
      rw [firstFrom?] at first
      cases result : read ⟨passed, character :: rest⟩ with
      | some other =>
          rw [result] at first
          exact ⟨[], _, Across.refl _, result.trans first,
            fun _ _ _ less => (Nat.not_lt_zero _ less).elim⟩
      | none =>
          rw [result] at first
          obtain ⟨before, place, across, reads, nowhere⟩ := induction first
          have step : Across ⟨passed, character :: rest⟩ [character] ⟨character :: passed, rest⟩ :=
            ⟨rfl, rfl⟩
          refine ⟨character :: before, place, step.trans across, reads, ?_⟩
          intro between other toOther less
          cases between with
          | nil =>
              have same : other = ⟨passed, character :: rest⟩ := by
                cases other
                simp_all [Across]
              rw [same, result]
          | cons next others =>
              obtain ⟨gap, equality, further⟩ := step.split toOther (by simp)
              simp only [List.cons_append, List.nil_append, List.cons.injEq] at equality
              rw [equality.2] at less
              exact nowhere gap other further (by simpa using less)

theorem exists_of_mem_occurrences {read : Recogniser α} (forward : GoesForward read)
    {cursor : Cursor} {found : α} (member : found ∈ occurrences read cursor) :
    ∃ before place next, Across cursor before place ∧ read place = some (found, next) := by
  generalize length : cursor.ahead.length = bound
  induction bound using Nat.strongRecOn generalizing cursor with
  | ind bound induction =>
      rw [occurrences] at member
      split at member
      · cases member
      · rename_i head next first
        obtain ⟨before, place, across, reads, _⟩ := first_of_firstFrom? first
        obtain ⟨between, toNext⟩ := forward _ _ _ reads
        split at member
        · rename_i shorter
          rcases List.mem_cons.mp member with rfl | later
          · exact ⟨before, place, next, across, reads⟩
          · obtain ⟨further, other, last, toOther, readsOther⟩ :=
              induction next.ahead.length (by omega) later rfl
            exact ⟨_, other, last, (across.trans toNext).trans toOther, readsOther⟩
        · rw [List.mem_singleton.mp member]
          exact ⟨before, place, next, across, reads⟩

/-- What a search from a place on lists: each construct is the first one that can be read at or
behind the end of the one before it, and behind the last one none can be read. -/
inductive Enumerates (read : Recogniser α) : Cursor → List α → Prop where
  | done {cursor : Cursor}
      (nowhere : ∀ between place, Across cursor between place → read place = none) :
      Enumerates read cursor []
  | next {cursor place behind : Cursor} {before : List Char} {found : α} {others : List α}
      (across : Across cursor before place) (reads : read place = some (found, behind))
      (first : ∀ between other, Across cursor between other → between.length < before.length →
        read other = none)
      (further : Enumerates read behind others) : Enumerates read cursor (found :: others)

/-- Whether a recogniser reads nothing inside what it reads. -/
def Apart (read : Recogniser α) : Prop :=
  ∀ {cursor found next whole between inner}, read cursor = some (found, next) →
    Across cursor whole next → Across cursor between inner → between ≠ [] →
      between.length < whole.length → read inner = none

theorem Apart.length_le_of_fails {read : Recogniser α} (apart : Apart read) {test : α → Bool}
    {place next other otherNext : Cursor} {head otherFound : α} {whole gap : List Char}
    (reads : read place = some (head, next)) (toNext : Across place whole next)
    (fails : test head = false) (fromPlace : Across place gap other)
    (readsOther : read other = some (otherFound, otherNext)) (passes : test otherFound = true) :
    whole.length ≤ gap.length := by
  rcases Nat.lt_or_ge gap.length whole.length with less | atLeast
  · cases gap with
    | nil =>
        have same : other = place := by
          cases other
          cases place
          simp_all [Across]
        rw [same, reads] at readsOther
        cases readsOther
        rw [fails] at passes
        cases passes
    | cons step steps =>
        rw [apart reads toNext fromPlace (by simp) less] at readsOther
        cases readsOther
  · exact atLeast

theorem eq_none_of_firstFrom? {read : Cursor → Option α} {passed ahead between : List Char}
    {other : Cursor} (nowhere : firstFrom? read passed ahead = none)
    (across : Across ⟨passed, ahead⟩ between other) : read other = none := by
  induction ahead generalizing passed between with
  | nil =>
      obtain ⟨ends, back⟩ := across
      obtain ⟨rfl, nothing⟩ := List.append_eq_nil_iff.mp ends.symm
      obtain ⟨otherPassed, otherAhead⟩ := other
      simp only [List.reverse_nil, List.nil_append] at back nothing
      rw [back, nothing]
      exact nowhere
  | cons character rest induction =>
      rw [firstFrom?] at nowhere
      split at nowhere
      · cases nowhere
      · rename_i here
        have step : Across ⟨passed, character :: rest⟩ [character] ⟨character :: passed, rest⟩ :=
          ⟨rfl, rfl⟩
        cases between with
        | nil =>
            have same : other = ⟨passed, character :: rest⟩ := by
              cases other
              simp_all [Across]
            rwa [same]
        | cons next others =>
            obtain ⟨gap, _, further⟩ := step.split across (by simp)
            exact induction nowhere further

theorem enumerates_occurrences {read : Recogniser α} (advances : Advances read)
    (cursor : Cursor) : Enumerates read cursor (occurrences read cursor) := by
  induction cursor using search_induction advances with
  | nothing cursor search =>
      rw [occurrences_eq_nil search]
      exact .done fun _ _ across => eq_none_of_firstFrom? search across
  | next cursor found behind search induction =>
      obtain ⟨before, place, across, reads, nowhere⟩ := first_of_firstFrom? search
      rw [occurrences_eq_cons advances search]
      exact .next across reads nowhere induction

theorem length_le_of_nowhere {read : Recogniser α} {cursor other otherNext : Cursor}
    {before between : List Char} {otherFound : α}
    (nowhere : ∀ between other, Across cursor between other → between.length < before.length →
      read other = none)
    (toOther : Across cursor between other)
    (readsOther : read other = some (otherFound, otherNext)) :
    before.length ≤ between.length := by
  rcases Nat.lt_or_ge between.length before.length with less | atLeast
  · rw [nowhere between other toOther less] at readsOther
    cases readsOther
  · exact atLeast

theorem exists_find?_occurrences {read : Recogniser α} (forward : GoesForward read)
    (advances : Advances read) (apart : Apart read) (test : α → Bool)
    {cursor other otherNext : Cursor} {found : α} {between : List Char}
    (across : Across cursor between other)
    (readsOther : read other = some (found, otherNext)) (passesOther : test found = true) :
    ∃ first, (occurrences read cursor).find? test = some first := by
  induction cursor using search_induction advances generalizing between with
  | nothing cursor search =>
      rw [eq_none_of_firstFrom? search across] at readsOther
      cases readsOther
  | next cursor head next search induction =>
      rw [occurrences_eq_cons advances search]
      obtain ⟨before, place, toPlace, reads, nowhere⟩ := first_of_firstFrom? search
      cases passes : test head with
      | true => exact ⟨head, List.find?_cons_of_pos passes⟩
      | false =>
          rw [List.find?_cons_of_neg (by simp [passes])]
          obtain ⟨whole, toNext⟩ := forward _ _ _ reads
          have later := length_le_of_nowhere nowhere across readsOther
          obtain ⟨gap, rfl, fromPlace⟩ := toPlace.split across later
          have behind := apart.length_le_of_fails reads toNext passes fromPlace readsOther
            passesOther
          obtain ⟨rest, rfl, fromNext⟩ := toNext.split fromPlace behind
          exact induction fromNext

/-- The first occurrence that passes a test stands before all other places at which the recogniser
reads what passes. -/
theorem first_of_find?_occurrences {read : Recogniser α} (forward : GoesForward read)
    (advances : Advances read) (apart : Apart read) {cursor : Cursor} {test : α → Bool}
    {found : α} (first : (occurrences read cursor).find? test = some found) :
    ∃ before place next, Across cursor before place ∧ read place = some (found, next) ∧
      ∀ between other otherFound otherNext, Across cursor between other →
        read other = some (otherFound, otherNext) → test otherFound = true →
          before.length ≤ between.length := by
  induction cursor using search_induction advances with
  | nothing cursor search =>
      rw [occurrences_eq_nil search] at first
      cases first
  | next cursor head next search induction =>
      rw [occurrences_eq_cons advances search] at first
      obtain ⟨before, place, across, reads, nowhere⟩ := first_of_firstFrom? search
      cases passes : test head with
      | true =>
          rw [List.find?_cons_of_pos passes] at first
          cases first
          exact ⟨before, place, next, across, reads,
            fun between other otherFound otherNext toOther readsOther _ =>
              length_le_of_nowhere nowhere toOther readsOther⟩
      | false =>
          rw [List.find?_cons_of_neg (by simp [passes])] at first
          obtain ⟨whole, toNext⟩ := forward _ _ _ reads
          obtain ⟨further, last, lastNext, toLast, readsLast, least⟩ := induction first
          refine ⟨_, last, lastNext, (across.trans toNext).trans toLast, readsLast, ?_⟩
          intro between other otherFound otherNext toOther readsOther passesOther
          obtain ⟨gap, rfl, fromPlace⟩ :=
            across.split toOther (length_le_of_nowhere nowhere toOther readsOther)
          have behind := apart.length_le_of_fails reads toNext passes fromPlace readsOther
            passesOther
          obtain ⟨rest, rfl, fromNext⟩ := toNext.split fromPlace behind
          have later := least rest other otherFound otherNext fromNext readsOther passesOther
          simp only [List.length_append]
          omega

end ScriptRegistrar.Text.Recogniser
