import ScriptRegistrar.Proofs.Text.Occurrences

/-!
# Searching from an offset

A place of a text is known by its byte offset, and the offsets of the places are in text order.
So a search that starts at a byte offset, inside a character or not, finds what is read at the
first place at or behind the offset, and looks at all of them.
-/

namespace ScriptRegistrar.Text.Cursor

theorem exists_across {cursor other : Cursor} (same : other.text = cursor.text)
    (less : cursor.offset ≤ other.offset) : ∃ between, Across cursor between other := by
  have ofPrefix : ∀ {near far : Cursor}, far.text = near.text →
      near.passed.reverse <+: far.passed.reverse → ∃ between, Across near between far := by
    rintro near far sameText ⟨between, shape⟩
    refine ⟨between, ?_, ?_⟩
    · rw [Cursor.text, Cursor.text, ← shape, List.append_assoc] at sameText
      exact (List.append_cancel_left sameText).symm
    · rw [← List.reverse_reverse far.passed, ← shape, List.reverse_append, List.reverse_reverse]
  have before : cursor.passed.reverse <+: cursor.text := List.prefix_append _ _
  have otherBefore : other.passed.reverse <+: cursor.text := same ▸ List.prefix_append _ _
  rcases List.prefix_or_prefix_of_prefix before otherBefore with isPrefix | isPrefix
  · exact ofPrefix same isPrefix
  · obtain ⟨between, across⟩ := ofPrefix same.symm isPrefix
    cases between with
    | nil => exact ⟨[], across.1.symm, across.2.symm⟩
    | cons next rest => exact absurd (across.offset_lt (by simp)) (by omega)

theorem eq_of_offset_eq {cursor other : Cursor} (same : other.text = cursor.text)
    (offsets : other.offset = cursor.offset) : other = cursor := by
  have found := atOffset?_offset other
  rw [same, offsets, atOffset?_offset] at found
  exact (Option.some.inj found).symm

/-- The first place at or behind an offset has no place of the text between itself and the
offset. -/
theorem across_of_advanceTo? {passed ahead : List Char} {offset : Nat} {cursor : Cursor}
    (found : advanceTo? passed offset ahead = some cursor) :
    ∃ between, Across ⟨passed, ahead⟩ between cursor ∧ offset ≤ byteLength between ∧
      ∀ left other, Across ⟨passed, ahead⟩ left other → left.length < between.length →
        byteLength left < offset := by
  induction ahead generalizing passed offset with
  | nil =>
      rw [advanceTo?] at found
      split at found
      · rename_i atStart
        cases found
        exact ⟨[], Across.refl _, Nat.le_of_eq atStart, fun _ _ _ less => (Nat.not_lt_zero _ less).elim⟩
      · cases found
  | cons next rest induction =>
      rw [advanceTo?] at found
      split at found
      · rename_i atStart
        cases found
        exact ⟨[], Across.refl _, Nat.le_of_eq atStart, fun _ _ _ less => (Nat.not_lt_zero _ less).elim⟩
      · rename_i later
        obtain ⟨between, across, reaches, nearest⟩ := induction found
        have step : Across ⟨passed, next :: rest⟩ [next] ⟨next :: passed, rest⟩ := ⟨rfl, rfl⟩
        refine ⟨next :: between, step.trans across, ?_, ?_⟩
        · rw [byteLength]
          omega
        · intro left other toOther less
          cases left with
          | nil => exact Nat.pos_of_ne_zero later
          | cons first others =>
              obtain ⟨gap, equality, further⟩ := step.split toOther (by simp)
              obtain ⟨rfl, rfl⟩ : first = next ∧ others = gap := by simpa using equality
              have nearer := nearest _ _ further (by simpa using less)
              rw [byteLength]
              omega

theorem byteLength_lt_of_advanceTo? {passed ahead : List Char} {offset : Nat}
    (nothing : advanceTo? passed offset ahead = none) : byteLength ahead < offset := by
  induction ahead generalizing passed offset with
  | nil =>
      rw [advanceTo?] at nothing
      split at nothing
      · cases nothing
      · rename_i later
        exact Nat.pos_of_ne_zero later
  | cons next rest induction =>
      rw [advanceTo?] at nothing
      split at nothing
      · cases nothing
      · have shorter := induction nothing
        rw [byteLength]
        omega

end ScriptRegistrar.Text.Cursor

namespace ScriptRegistrar.Text.Recogniser

open Cursor

variable {text : List Char} {offset : Nat} {read : Cursor → Option α}

theorem across_iff_of_atOrAfter? {cursor : Cursor} (found : atOrAfter? text offset = some cursor)
    (other : Cursor) :
    (∃ between, Across cursor between other) ↔ other.text = text ∧ offset ≤ other.offset := by
  obtain ⟨left, toCursor, reaches, nearest⟩ := across_of_advanceTo? found
  have cursorOffset := toCursor.offset_eq
  constructor
  · rintro ⟨between, across⟩
    have farther := across.offset_eq
    refine ⟨across.text_eq.trans toCursor.text_eq, ?_⟩
    omega
  · rintro ⟨sameText, behind⟩
    obtain ⟨between, toOther⟩ := @exists_across (Cursor.start text) other sameText (Nat.zero_le _)
    have otherOffset := toOther.offset_eq
    rcases Nat.lt_or_ge between.length left.length with shorter | longer
    · have tooNear := nearest _ _ toOther shorter
      have startOffset : (Cursor.start text).offset = 0 := rfl
      omega
    · obtain ⟨gap, _, across⟩ := toCursor.split toOther longer
      exact ⟨gap, across⟩

/-- A search from an offset on finds what is read at the first place at or behind the offset where
something is read. -/
theorem first_of_atOrAfter? {found : α}
    (first : (atOrAfter? text offset).bind (first? read) = some found) :
    ∃ place, read place = some found ∧ place.text = text ∧ offset ≤ place.offset ∧
      ∀ other, other.text = text → offset ≤ other.offset → other.offset < place.offset →
        read other = none := by
  obtain ⟨cursor, atCursor, search⟩ := Option.bind_eq_some_iff.mp first
  obtain ⟨before, place, toPlace, reads, nowhere⟩ := first_of_firstFrom? search
  obtain ⟨sameText, behind⟩ := (across_iff_of_atOrAfter? atCursor place).mp ⟨before, toPlace⟩
  refine ⟨place, reads, sameText, behind, ?_⟩
  intro other otherText otherBehind less
  obtain ⟨between, toOther⟩ := (across_iff_of_atOrAfter? atCursor other).mpr ⟨otherText, otherBehind⟩
  rcases Nat.lt_or_ge between.length before.length with shorter | longer
  · exact nowhere between other toOther shorter
  · obtain ⟨gap, _, fromPlace⟩ := toPlace.split toOther longer
    have farther := fromPlace.offset_eq
    omega

theorem eq_none_of_atOrAfter? (nothing : (atOrAfter? text offset).bind (first? read) = none)
    {other : Cursor} (sameText : other.text = text) (behind : offset ≤ other.offset) :
    read other = none := by
  cases atCursor : atOrAfter? text offset with
  | none =>
      have ends := byteLength_lt_of_advanceTo? atCursor
      have inside := other.offset_le_byteLength
      rw [sameText] at inside
      omega
  | some cursor =>
      rw [atCursor] at nothing
      obtain ⟨between, across⟩ := (across_iff_of_atOrAfter? atCursor other).mpr ⟨sameText, behind⟩
      exact eq_none_of_firstFrom? nothing across

end ScriptRegistrar.Text.Recogniser
