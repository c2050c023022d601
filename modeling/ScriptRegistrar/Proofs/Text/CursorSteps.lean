import ScriptRegistrar.Text.Cursor

/-!
# Steps of a cursor

What a step of a cursor passes, and where it leads from a place whose text is known.  `Across` is
the relation every step keeps: the text ahead starts with what was passed.  Equations about texts
that start in a given way run a recogniser forward over a printed text.
-/

namespace ScriptRegistrar.Text

@[simp] theorem byteLength_nil : byteLength [] = 0 := rfl

@[simp] theorem byteLength_cons (next : Char) (rest : List Char) :
    byteLength (next :: rest) = next.utf8Size + byteLength rest := rfl

@[simp] theorem byteLength_append (left right : List Char) :
    byteLength (left ++ right) = byteLength left + byteLength right := by
  induction left with
  | nil => simp [byteLength]
  | cons next rest induction =>
      simp [induction, Nat.add_assoc]

@[simp] theorem byteLength_reverse (text : List Char) :
    byteLength text.reverse = byteLength text := by
  induction text with
  | nil => rfl
  | cons next rest induction => simp [induction, Nat.add_comm]

@[simp] theorem utf8Size_openingBrace : '\x7b'.utf8Size = 1 := rfl

@[simp] theorem utf8Size_closingBrace : '\x7d'.utf8Size = 1 := rfl

namespace Cursor

/-- Whether one place leads to another across a text. -/
def Across (cursor : Cursor) (between : List Char) (next : Cursor) : Prop :=
  cursor.ahead = between ++ next.ahead ∧ next.passed = between.reverse ++ cursor.passed

namespace Across

theorem refl (cursor : Cursor) : Across cursor [] cursor :=
  ⟨rfl, rfl⟩

theorem trans {first second third : Cursor} {left right : List Char}
    (before : Across first left second) (after : Across second right third) :
    Across first (left ++ right) third := by
  constructor
  · rw [before.1, after.1, List.append_assoc]
  · rw [after.2, before.2, List.reverse_append, List.append_assoc]

theorem text_eq {cursor next : Cursor} {between : List Char} (across : Across cursor between next) :
    next.text = cursor.text := by
  simp only [Cursor.text, across.1, across.2, List.reverse_append, List.reverse_reverse,
    List.append_assoc]

/-- Offsets grow by what is passed. -/
theorem offset_eq {cursor next : Cursor} {between : List Char} (across : Across cursor between next) :
    next.offset = cursor.offset + byteLength between := by
  simp [offset, across.2, Nat.add_comm]

theorem offset_lt {cursor next : Cursor} {between : List Char}
    (across : Across cursor between next) (passes : between ≠ []) :
    cursor.offset < next.offset := by
  rw [across.offset_eq]
  cases between with
  | nil => exact (passes rfl).elim
  | cons first rest =>
      have positive := Char.utf8Size_pos first
      rw [byteLength]
      omega

/-- Of two ways ahead the shorter is a first part of the longer. -/
theorem split {cursor nearer farther : Cursor} {left right : List Char}
    (near : Across cursor left nearer) (far : Across cursor right farther)
    (shorter : left.length ≤ right.length) :
    ∃ gap, right = left ++ gap ∧ Across nearer gap farther := by
  have isPrefix : left <+: right := List.prefix_of_prefix_length_le ⟨nearer.ahead, near.1.symm⟩
    ⟨farther.ahead, far.1.symm⟩ shorter
  obtain ⟨gap, rfl⟩ := isPrefix
  refine ⟨gap, rfl, ?_, ?_⟩
  · have ahead := near.1.symm.trans far.1
    rw [List.append_assoc] at ahead
    exact List.append_cancel_left ahead
  · rw [far.2, near.2, List.reverse_append, List.append_assoc]

/-- The place between two parts of what is passed. -/
theorem exists_between {cursor next : Cursor} {left right : List Char}
    (across : Across cursor (left ++ right) next) :
    ∃ middle, Across cursor left middle ∧ Across middle right next := by
  obtain ⟨ahead, passed⟩ := across
  refine ⟨⟨left.reverse ++ cursor.passed, right ++ next.ahead⟩, ⟨?_, rfl⟩, rfl, ?_⟩
  · rw [ahead, List.append_assoc]
  · rw [passed, List.reverse_append, List.append_assoc]

theorem length_ahead {cursor next : Cursor} {between : List Char}
    (across : Across cursor between next) :
    cursor.ahead.length = between.length + next.ahead.length := by
  rw [across.1, List.length_append]

theorem length_ahead_lt {cursor next : Cursor} {between : List Char}
    (across : Across cursor between next) (passes : between ≠ []) :
    next.ahead.length < cursor.ahead.length := by
  have positive := List.length_pos_iff.mpr passes
  have length := across.length_ahead
  omega

end Across

theorem offset_le_byteLength (cursor : Cursor) : cursor.offset ≤ byteLength cursor.text := by
  simp [Cursor.text, Cursor.offset]

@[simp] theorem advance?_append (passed between rest : List Char) :
    advance? passed (byteLength between) (between ++ rest) =
      some ⟨between.reverse ++ passed, rest⟩ := by
  induction between generalizing passed with
  | nil => cases rest <;> simp [advance?, byteLength]
  | cons next others induction =>
      have positive := Char.utf8Size_pos next
      rw [List.cons_append, byteLength, advance?, if_neg (by omega), if_pos (by omega),
        Nat.add_sub_cancel_left, induction]
      simp

/-- A place that is found at an offset is that many bytes further on. -/
theorem across_of_advance? {passed ahead : List Char} {offset : Nat} {cursor : Cursor}
    (found : advance? passed offset ahead = some cursor) :
    ∃ between, Across ⟨passed, ahead⟩ between cursor ∧ byteLength between = offset := by
  induction ahead generalizing passed offset with
  | nil =>
      rw [advance?] at found
      split at found
      · rename_i atStart
        cases found
        exact ⟨[], Across.refl _, atStart.symm⟩
      · cases found
  | cons next rest induction =>
      rw [advance?] at found
      split at found
      · rename_i atStart
        cases found
        exact ⟨[], Across.refl _, atStart.symm⟩
      · split at found
        · obtain ⟨between, across, length⟩ := induction found
          have step : Across ⟨passed, next :: rest⟩ [next] ⟨next :: passed, rest⟩ := ⟨rfl, rfl⟩
          refine ⟨next :: between, step.trans across, ?_⟩
          rw [byteLength, length]
          omega
        · cases found

@[simp] theorem atOffset?_offset (cursor : Cursor) :
    atOffset? cursor.text cursor.offset = some cursor := by
  have found := advance?_append [] cursor.passed.reverse cursor.ahead
  rw [byteLength_reverse, List.reverse_reverse, List.append_nil] at found
  exact found

@[simp] theorem advanceTo?_append (passed between rest : List Char) :
    advanceTo? passed (byteLength between) (between ++ rest) =
      some ⟨between.reverse ++ passed, rest⟩ := by
  induction between generalizing passed with
  | nil => cases rest <;> simp [advanceTo?, byteLength]
  | cons next others induction =>
      have positive := Char.utf8Size_pos next
      rw [List.cons_append, byteLength, advanceTo?, if_neg (by omega), Nat.add_sub_cancel_left,
        induction]
      simp

@[simp] theorem atOrAfter?_offset (cursor : Cursor) :
    atOrAfter? cursor.text cursor.offset = some cursor := by
  have found := advanceTo?_append [] cursor.passed.reverse cursor.ahead
  rw [byteLength_reverse, List.reverse_reverse, List.append_nil] at found
  exact found

theorem literal?_eq_some_iff {cursor next : Cursor} {expected : List Char} :
    cursor.literal? expected = some next ↔ Across cursor expected next := by
  unfold literal? Across
  constructor
  · intro read
    split at read
    · rename_i comesNext
      obtain ⟨rest, equality⟩ := List.isPrefixOf_iff_prefix.mp comesNext
      cases read
      simp [← equality]
    · cases read
  · rintro ⟨ahead, passed⟩
    have comesNext : expected.isPrefixOf cursor.ahead = true :=
      List.isPrefixOf_iff_prefix.mpr ⟨next.ahead, ahead.symm⟩
    rw [if_pos comesNext, ahead, List.drop_left, ← passed]

theorem sign?_eq_some_iff {cursor next : Cursor} {expected : String} :
    cursor.sign? expected = some next ↔ Across cursor expected.toList next :=
  literal?_eq_some_iff

theorem across_passWhile (cursor : Cursor) (test : Char → Bool) :
    Across cursor (cursor.ahead.takeWhile test) (cursor.passWhile test) :=
  ⟨(List.takeWhile_append_dropWhile).symm, rfl⟩

theorem across_passBlanks (cursor : Cursor) :
    Across cursor (cursor.ahead.takeWhile isBlank) cursor.passBlanks :=
  across_passWhile cursor isBlank

/-- Blanks that must come are at least one. -/
theorem across_of_blanks? {cursor next : Cursor} (read : cursor.blanks? = some next) :
    Across cursor (cursor.ahead.takeWhile isBlank) next ∧
      cursor.ahead.head?.any isBlank = true := by
  unfold blanks? nextIs at read
  split at read
  · rename_i comesNext
    cases read
    exact ⟨across_passBlanks cursor, comesNext⟩
  · cases read

theorem across_of_word? {cursor next : Cursor} {word : List Char}
    (read : cursor.word? = some (word, next)) :
    Across cursor word next ∧ word = cursor.ahead.takeWhile isWord ∧ word ≠ [] := by
  unfold word? at read
  split at read
  · cases read
  · rename_i nonempty
    cases read
    exact ⟨across_passWhile cursor isWord, rfl, nonempty⟩

@[simp] theorem literal?_append (passed expected rest : List Char) :
    (Cursor.mk passed (expected ++ rest)).literal? expected =
      some ⟨expected.reverse ++ passed, rest⟩ :=
  literal?_eq_some_iff.mpr ⟨rfl, rfl⟩

theorem takeWhile_append_of_stops {run rest : List Char} {test : Char → Bool}
    (holds : ∀ character ∈ run, test character = true)
    (stops : rest.head?.any test = false) : (run ++ rest).takeWhile test = run := by
  rw [List.takeWhile_append_of_pos holds]
  cases rest with
  | nil => simp
  | cons character behind =>
      have different : test character = false := by simpa using stops
      simp [different]

theorem dropWhile_append_of_stops {run rest : List Char} {test : Char → Bool}
    (holds : ∀ character ∈ run, test character = true)
    (stops : rest.head?.any test = false) : (run ++ rest).dropWhile test = rest := by
  rw [List.dropWhile_append_of_pos holds]
  cases rest with
  | nil => rfl
  | cons character behind =>
      have different : test character = false := by simpa using stops
      simp [different]

theorem passWhile_append {passed run rest : List Char} {test : Char → Bool}
    (holds : ∀ character ∈ run, test character = true)
    (stops : rest.head?.any test = false) :
    (Cursor.mk passed (run ++ rest)).passWhile test = ⟨run.reverse ++ passed, rest⟩ := by
  rw [passWhile, takeWhile_append_of_stops holds stops, dropWhile_append_of_stops holds stops]

theorem Across.passWhile_eq {cursor next : Cursor} {run : List Char} (across : Across cursor run next)
    {test : Char → Bool} (holds : ∀ character ∈ run, test character = true)
    (stops : next.ahead.head?.any test = false) :
    cursor.ahead.takeWhile test = run ∧ cursor.passWhile test = next := by
  obtain ⟨passed, ahead⟩ := cursor
  obtain ⟨nextPassed, rest⟩ := next
  obtain rfl : ahead = run ++ rest := across.1
  obtain rfl : nextPassed = run.reverse ++ passed := across.2
  exact ⟨takeWhile_append_of_stops holds stops, passWhile_append holds stops⟩

theorem passBlanks_of_not_isBlank {passed rest : List Char}
    (stops : rest.head?.any isBlank = false) :
    (Cursor.mk passed rest).passBlanks = ⟨passed, rest⟩ :=
  @passWhile_append passed [] rest isBlank (by simp) stops

/-- A space is passed, and nothing more where no blank follows. -/
theorem passBlanks_space {passed rest : List Char}
    (stops : rest.head?.any isBlank = false) :
    (Cursor.mk passed (' ' :: rest)).passBlanks = ⟨' ' :: passed, rest⟩ :=
  @passWhile_append passed [' '] rest isBlank (List.forall_mem_singleton.mpr rfl) stops

theorem blanks?_space {passed rest : List Char}
    (stops : rest.head?.any isBlank = false) :
    (Cursor.mk passed (' ' :: rest)).blanks? = some ⟨' ' :: passed, rest⟩ := by
  rw [blanks?, passBlanks_space stops]
  rfl

theorem word?_append {passed word rest : List Char} (nonempty : word ≠ [])
    (letters : ∀ character ∈ word, isWord character = true)
    (stops : rest.head?.any isWord = false) :
    (Cursor.mk passed (word ++ rest)).word? = some (word, ⟨word.reverse ++ passed, rest⟩) := by
  have passes := @passWhile_append passed word rest isWord letters stops
  have run := takeWhile_append_of_stops letters stops
  rw [word?, passes]
  simp only [run]

/-- Everything is passed, or a place in front of the sign is reached. -/
theorem ahead_passWhile_ne (cursor : Cursor) (sign : Char) :
    (cursor.passWhile (· ≠ sign)).ahead = [] ∨
      ∃ rest, (cursor.passWhile (· ≠ sign)).ahead = sign :: rest := by
  have stops := List.head?_dropWhile_not (· ≠ sign) cursor.ahead
  rw [passWhile]
  cases ahead : cursor.ahead.dropWhile (· ≠ sign) with
  | nil => exact Or.inl rfl
  | cons first rest =>
      rw [ahead] at stops
      have same : first = sign := by simpa using stops
      exact Or.inr ⟨rest, by rw [same]⟩

/-- A place in front of a word and behind no word character is a boundary. -/
theorem isBoundary_of_word {passed ahead : List Char}
    (outside : passed.head?.any isWord = false) (inside : ahead.head?.any isWord = true) :
    (Cursor.mk passed ahead).isBoundary = true := by
  simp only [Cursor.isBoundary, Text.isBoundary, outside, inside]
  rfl

end Cursor

end ScriptRegistrar.Text
