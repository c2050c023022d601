import Mathlib.Data.List.TakeWhile
import ScriptRegistrar.Text.Blank

/-!
# Trimmed texts

A trimmed text has a blank at neither end.  Trimming gives such a text, and blanks put around one
are all that trimming takes away.
-/

namespace ScriptRegistrar.Text

/-- Whether a text has a blank at neither end. -/
structure IsTrimmed (text : List Char) : Prop where
  first : text.head?.any isBlank = false
  last : text.getLast?.any isBlank = false

theorem isTrimmed_of_no_blank {text : List Char}
    (unbroken : ∀ character ∈ text, isBlank character = false) : IsTrimmed text := by
  constructor
  · cases first : text.head? with
    | none => rfl
    | some character => exact unbroken character (List.mem_of_head? first)
  · cases last : text.getLast? with
    | none => rfl
    | some character => exact unbroken character (List.mem_of_getLast? last)

/-- A text is trimmed if it starts and ends with parts that have no blank there. -/
theorem isTrimmed_append {left right : List Char} (middle : List Char) (leftNonempty : left ≠ [])
    (rightNonempty : right ≠ []) (first : left.head?.any isBlank = false)
    (last : right.getLast?.any isBlank = false) : IsTrimmed (left ++ (middle ++ right)) := by
  constructor
  · obtain ⟨next, rest, rfl⟩ := List.exists_cons_of_ne_nil leftNonempty
    exact first
  · obtain ⟨final, ends⟩ := Option.isSome_iff_exists.mp (List.getLast?_isSome.mpr rightNonempty)
    rw [ends] at last
    rw [List.getLast?_append, List.getLast?_append, ends]
    exact last

theorem dropEndWhile_append_of_all {drop : Char → Bool} (text : List Char)
    {dropped : List Char} (all : ∀ character ∈ dropped, drop character = true) :
    dropEndWhile drop (text ++ dropped) = dropEndWhile drop text := by
  induction text with
  | nil => exact (dropEndWhile_eq_nil_iff drop dropped).mpr all
  | cons next rest induction => simp [dropEndWhile, induction]

theorem dropEndWhile_eq_self {drop : Char → Bool} {text : List Char}
    (last : text.getLast?.any drop = false) : dropEndWhile drop text = text := by
  induction text with
  | nil => rfl
  | cons next rest induction =>
      cases rest with
      | nil =>
          have keeps : drop next = false := by simpa using last
          simp [dropEndWhile, keeps]
      | cons second others =>
          rw [dropEndWhile, induction (by simpa using last)]

@[simp] theorem dropEndWhile_reverse (drop : Char → Bool) (text : List Char) :
    dropEndWhile drop text.reverse = (text.dropWhile drop).reverse := by
  induction text with
  | nil => rfl
  | cons next rest induction =>
      rw [List.reverse_cons]
      cases dropped : drop next with
      | true =>
          rw [dropEndWhile_append_of_all _ (by simpa using dropped), induction,
            List.dropWhile_cons_of_pos dropped]
      | false =>
          rw [dropEndWhile_eq_self (by simpa using dropped),
            List.dropWhile_cons_of_neg (by simp [dropped]), List.reverse_cons]

@[simp] theorem getLast?_dropEndWhile (drop : Char → Bool) (text : List Char) :
    (dropEndWhile drop text).getLast?.any drop = false := by
  induction text with
  | nil => rfl
  | cons next rest induction =>
      rw [dropEndWhile]
      cases kept : dropEndWhile drop rest with
      | nil => by_cases dropped : drop next = true <;> simp [dropped]
      | cons second others => simpa [kept] using induction

theorem head?_dropEndWhile {drop : Char → Bool} {text : List Char}
    (first : text.head?.any drop = false) : (dropEndWhile drop text).head?.any drop = false := by
  cases text with
  | nil => rfl
  | cons next rest =>
      have keeps : drop next = false := by simpa using first
      rw [dropEndWhile]
      cases dropEndWhile drop rest <;> simp [keeps]

theorem isTrimmed_trim (text : List Char) : IsTrimmed (trim text) := by
  exact ⟨head?_dropEndWhile (head?_any_dropWhile isBlank text), getLast?_dropEndWhile isBlank _⟩

/-- Trimming takes away the blanks around a trimmed text. -/
theorem trim_surrounded {before text behind : List Char} (trimmed : IsTrimmed text)
    (blanksBefore : ∀ character ∈ before, isBlank character = true)
    (blanksBehind : ∀ character ∈ behind, isBlank character = true) :
    trim (before ++ (text ++ behind)) = text := by
  rw [trim, trimStart, List.dropWhile_append_of_pos blanksBefore]
  cases text with
  | nil =>
      rw [List.nil_append, ← List.append_nil behind, List.dropWhile_append_of_pos blanksBehind]
      rfl
  | cons next rest =>
      have keeps : isBlank next = false := by simpa using trimmed.first
      rw [List.cons_append, List.dropWhile_cons_of_neg (by simp [keeps]), ← List.cons_append,
        trimEnd, dropEndWhile_append_of_all _ blanksBehind, dropEndWhile_eq_self trimmed.last]

theorem dropEndWhile_append_of_kept {drop : Char → Bool} {right : List Char} (left : List Char)
    (kept : dropEndWhile drop right ≠ []) :
    dropEndWhile drop (left ++ right) = left ++ dropEndWhile drop right := by
  induction left with
  | nil => rfl
  | cons next rest induction =>
      rw [List.cons_append, dropEndWhile, induction]
      cases further : rest ++ dropEndWhile drop right with
      | nil => exact (kept (List.append_eq_nil_iff.mp further).2).elim
      | cons second others => rw [List.cons_append, further]

theorem dropEndWhile_append_of_none {drop : Char → Bool} {right : List Char} (left : List Char)
    (nonempty : right ≠ []) (keeps : ∀ character ∈ right, drop character = false) :
    dropEndWhile drop (left ++ right) = left ++ right := by
  obtain ⟨final, ends⟩ := Option.isSome_iff_exists.mp (List.getLast?_isSome.mpr nonempty)
  apply dropEndWhile_eq_self
  rw [List.getLast?_append, ends]
  exact keeps final (List.mem_of_getLast? ends)

/-- Between two parts of a text that are not blank nothing is trimmed away. -/
theorem trim_append_cons_append {left right : List Char} (middle : Char)
    (solidLeft : ∃ character ∈ left, isBlank character = false)
    (solidRight : ∃ character ∈ right, isBlank character = false) :
    trim (left ++ middle :: right) = trimStart left ++ middle :: trimEnd right := by
  have keptLeft : (left.dropWhile isBlank).isEmpty = false := by
    obtain ⟨character, member, solid⟩ := solidLeft
    rw [List.isEmpty_eq_false_iff, ne_eq, List.dropWhile_eq_nil_iff]
    intro blank
    rw [blank character member] at solid
    exact Bool.noConfusion solid
  have keptRight : dropEndWhile isBlank right ≠ [] := by
    obtain ⟨character, member, solid⟩ := solidRight
    rw [ne_eq, dropEndWhile_eq_nil_iff]
    intro blank
    rw [blank character member] at solid
    exact Bool.noConfusion solid
  have parts := dropEndWhile_append_of_kept (left.dropWhile isBlank ++ [middle]) keptRight
  rw [trim, trimStart, List.dropWhile_append, keptLeft]
  simpa [trimStart, trimEnd] using parts

@[simp] theorem trim_eq_self {text : List Char} (trimmed : IsTrimmed text) : trim text = text := by
  simpa using @trim_surrounded [] text [] trimmed (by simp) (by simp)

end ScriptRegistrar.Text
