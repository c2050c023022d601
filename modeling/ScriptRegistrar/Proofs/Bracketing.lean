import ScriptRegistrar.Bracketed

/-!
# Closing brackets

How far a bracket reaches.  `Balanced` says of a text that it closes what it opens and never more;
such a text is passed over on the way to a closing bracket, at any depth, and what stands between
an opening bracket and the one that closes it is balanced.
-/

namespace ScriptRegistrar.Bracketed

/-- Puts text in front of the inner text. -/
def prepend (text : List Char) (parts : List Char × List Char) : List Char × List Char :=
  (text ++ parts.1, parts.2)

@[simp] theorem keep_eq_map (next : Char) (result : Option (List Char × List Char)) :
    close?.keep next result = result.map (prepend [next]) := by
  cases result <;> rfl

@[simp] theorem map_prepend_map_prepend (left right : List Char)
    (result : Option (List Char × List Char)) :
    (result.map (prepend right)).map (prepend left) = result.map (prepend (left ++ right)) := by
  cases result <;> simp [prepend]

@[simp] theorem close?_cons_of_ne {opening closing next : Char} (notOpening : next ≠ opening)
    (notClosing : next ≠ closing) (depth : Nat) (rest : List Char) :
    close? opening closing depth (next :: rest) =
      (close? opening closing depth rest).map (prepend [next]) := by
  cases depth <;> simp only [close?, if_neg notOpening, if_neg notClosing, keep_eq_map]

@[simp] theorem close?_opening (opening closing : Char) (depth : Nat) (rest : List Char) :
    close? opening closing depth (opening :: rest) =
      (close? opening closing (depth + 1) rest).map (prepend [opening]) := by
  cases depth <;> simp only [close?, if_pos, keep_eq_map]

@[simp] theorem close?_closing_zero {opening closing : Char} (different : closing ≠ opening)
    (rest : List Char) : close? opening closing 0 (closing :: rest) = some ([], rest) := by
  rw [close?, if_neg different, if_pos rfl]

@[simp] theorem close?_closing_succ {opening closing : Char} (different : closing ≠ opening)
    (depth : Nat) (rest : List Char) :
    close? opening closing (depth + 1) (closing :: rest) =
      (close? opening closing depth rest).map (prepend [closing]) := by
  rw [close?, if_neg different, if_pos rfl, keep_eq_map]

/-- Whether a text closes the brackets it opens and no others. -/
inductive Balanced (opening closing : Char) : List Char → Prop where
  | nil : Balanced opening closing []
  | other {next : Char} {rest : List Char} (notOpening : next ≠ opening)
      (notClosing : next ≠ closing) (balanced : Balanced opening closing rest) :
      Balanced opening closing (next :: rest)
  | group {inside rest : List Char} (within : Balanced opening closing inside)
      (behind : Balanced opening closing rest) :
      Balanced opening closing (opening :: (inside ++ closing :: rest))

namespace Balanced

variable {opening closing : Char}

theorem of_not_mem {text : List Char} (notOpening : opening ∉ text) (notClosing : closing ∉ text) :
    Balanced opening closing text := by
  induction text with
  | nil => exact .nil
  | cons next rest induction =>
      simp only [List.mem_cons, not_or] at notOpening notClosing
      exact .other (Ne.symm notOpening.1) (Ne.symm notClosing.1)
        (induction notOpening.2 notClosing.2)

theorem append {left right : List Char} (first : Balanced opening closing left)
    (second : Balanced opening closing right) : Balanced opening closing (left ++ right) := by
  induction first with
  | nil => exact second
  | other notOpening notClosing _ induction => exact .other notOpening notClosing induction
  | @group inside rest within _ _ induction =>
      rw [List.cons_append, List.append_assoc, List.cons_append]
      exact .group within induction

end Balanced

theorem close?_append_of_balanced {opening closing : Char} (different : closing ≠ opening)
    {text : List Char} (balanced : Balanced opening closing text) (depth : Nat)
    (rest : List Char) :
    close? opening closing depth (text ++ rest) =
      (close? opening closing depth rest).map (prepend text) := by
  induction balanced generalizing depth rest with
  | nil => cases found : close? opening closing depth rest <;> simp [found, prepend]
  | other notOpening notClosing _ induction =>
      rw [List.cons_append, close?_cons_of_ne notOpening notClosing, induction,
        map_prepend_map_prepend]
      rfl
  | @group inside behind within _ insideInduction behindInduction =>
      rw [List.cons_append, List.append_assoc, close?_opening, insideInduction, List.cons_append,
        close?_closing_succ different, behindInduction, map_prepend_map_prepend,
        map_prepend_map_prepend, map_prepend_map_prepend]
      simp

theorem close?_of_balanced {opening closing : Char} (different : closing ≠ opening)
    {text : List Char} (balanced : Balanced opening closing text) (rest : List Char) :
    close? opening closing 0 (text ++ closing :: rest) = some (text, rest) := by
  rw [close?_append_of_balanced different balanced, close?_closing_zero different]
  simp [prepend]

/-- What closes behind a first part of a text closes from there on, with some brackets open. -/
theorem close?_append {opening closing : Char} {left right inside behind : List Char} {depth : Nat}
    (closed : close? opening closing depth (left ++ right) = some (inside, behind)) :
    (∃ rest, left = inside ++ closing :: rest) ∨
      ∃ further later, inside = left ++ later ∧
        close? opening closing further right = some (later, behind) := by
  induction left generalizing depth inside with
  | nil => exact Or.inr ⟨depth, inside, rfl, closed⟩
  | cons next others induction =>
      have kept : ∀ {deeper : Nat}, (close? opening closing deeper (others ++ right)).map
          (prepend [next]) = some (inside, behind) →
          (∃ rest, next :: others = inside ++ closing :: rest) ∨
            ∃ further later, inside = next :: others ++ later ∧
              close? opening closing further right = some (later, behind) := by
        intro deeper equality
        obtain ⟨⟨shorter, same⟩, found, parts⟩ := Option.map_eq_some_iff.mp equality
        simp only [prepend, Prod.mk.injEq] at parts
        obtain ⟨rfl, rfl⟩ := parts
        rcases induction found with ⟨rest, rfl⟩ | ⟨further, later, rfl, still⟩
        · exact Or.inl ⟨rest, rfl⟩
        · exact Or.inr ⟨further, later, rfl, still⟩
      rw [List.cons_append] at closed
      by_cases isOpening : next = opening
      · subst isOpening
        rw [close?_opening] at closed
        exact kept closed
      · by_cases isClosing : next = closing
        · subst isClosing
          cases depth with
          | zero =>
              rw [close?_closing_zero isOpening] at closed
              cases closed
              exact Or.inl ⟨others, rfl⟩
          | succ depth =>
              rw [close?_closing_succ isOpening] at closed
              exact kept closed
        · rw [close?_cons_of_ne isOpening isClosing] at closed
          exact kept closed

/-- The more brackets are open, the further on the last of them closes. -/
theorem length_lt_of_close? {opening closing : Char} {text : List Char} {depth deeper : Nat}
    (less : depth < deeper) {first second : List Char × List Char}
    (firstCloses : close? opening closing depth text = some first)
    (secondCloses : close? opening closing deeper text = some second) :
    first.1.length < second.1.length := by
  induction text generalizing depth deeper first second with
  | nil => cases firstCloses
  | cons next rest induction =>
      have kept : ∀ {low high : Nat}, low < high →
          (close? opening closing low rest).map (prepend [next]) = some first →
          (close? opening closing high rest).map (prepend [next]) = some second →
            first.1.length < second.1.length := by
        intro low high lower firstKept secondKept
        obtain ⟨shorter, found, rfl⟩ := Option.map_eq_some_iff.mp firstKept
        obtain ⟨longer, foundToo, rfl⟩ := Option.map_eq_some_iff.mp secondKept
        have further := induction lower found foundToo
        simp only [prepend, List.singleton_append, List.length_cons]
        omega
      by_cases isOpening : next = opening
      · subst isOpening
        rw [close?_opening] at firstCloses secondCloses
        exact kept (Nat.succ_lt_succ less) firstCloses secondCloses
      · by_cases isClosing : next = closing
        · subst isClosing
          obtain ⟨deeper, rfl⟩ : ∃ one, deeper = one + 1 := ⟨deeper - 1, by omega⟩
          rw [close?_closing_succ isOpening] at secondCloses
          cases depth with
          | zero =>
              rw [close?_closing_zero isOpening] at firstCloses
              obtain ⟨longer, _, rfl⟩ := Option.map_eq_some_iff.mp secondCloses
              cases firstCloses
              simp [prepend]
          | succ depth =>
              rw [close?_closing_succ isOpening] at firstCloses
              exact kept (by omega) firstCloses secondCloses
        · rw [close?_cons_of_ne isOpening isClosing] at firstCloses secondCloses
          exact kept less firstCloses secondCloses

/-- A bracket that opens inside a group closes inside it as well. -/
theorem close?_inside {opening closing : Char} {left right behind inner rest : List Char}
    {depth : Nat}
    (outer : close? opening closing depth (left ++ opening :: (right ++ closing :: behind)) =
      some (left ++ opening :: right, behind))
    (inside : close? opening closing 0 (right ++ closing :: behind) = some (inner, rest)) :
    ∃ between, right = inner ++ closing :: between := by
  rcases close?_append outer with ⟨more, equality⟩ | ⟨further, later, equality, still⟩
  · have lengths := congrArg List.length equality
    simp only [List.length_append, List.length_cons] at lengths
    omega
  · obtain rfl := List.append_cancel_left equality
    rw [close?_opening] at still
    obtain ⟨⟨group, same⟩, found, parts⟩ := Option.map_eq_some_iff.mp still
    simp only [prepend, List.singleton_append, Prod.mk.injEq, List.cons.injEq, true_and] at parts
    obtain ⟨rfl, rfl⟩ := parts
    have shorter := length_lt_of_close? (Nat.succ_pos further) inside found
    have whole := append_of_close? inside
    rcases List.append_eq_append_iff.mp whole with ⟨between, longer, _⟩ | ⟨between, parts, ends⟩
    · have lengths := congrArg List.length longer
      simp at lengths shorter
      omega
    · cases between with
      | nil =>
          rw [List.append_nil] at parts
          rw [parts] at shorter
          exact (Nat.lt_irrefl _ shorter).elim
      | cons next others =>
          simp only [List.cons_append, List.cons.injEq] at ends
          exact ⟨others, by rw [parts, ends.1]⟩

end ScriptRegistrar.Bracketed
