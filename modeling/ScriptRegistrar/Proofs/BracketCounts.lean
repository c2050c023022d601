import ScriptRegistrar.Proofs.ParameterNesting

/-!
# Counts of 32 bits

A scan of a parameter list counts the brackets that are open in 32 bits, so that a count starts
again at zero once 2^32 of them are.  A count is never greater than the number of opening brackets
that were read.  A list with fewer of them than 2^32 is therefore counted as it is: what opens adds
one, and what closes takes it away again.
-/

namespace ScriptRegistrar.ParameterList

theorem toNat_oneMore_le (count : UInt32) : (count + 1).toNat ≤ count.toNat + 1 := by
  rw [UInt32.toNat_add]
  exact Nat.mod_le _ _

theorem toNat_oneMore {count : UInt32} (room : count.toNat + 1 < UInt32.size) :
    (count + 1).toNat = count.toNat + 1 := by
  rw [UInt32.toNat_add]
  exact Nat.mod_eq_of_lt room

theorem oneMore_ne_zero {count : UInt32} (room : count.toNat + 1 < UInt32.size) : count + 1 ≠ 0 := by
  intro none
  have value := toNat_oneMore room
  rw [none] at value
  simp at value

@[simp] theorem toNat_oneFewer (count : UInt32) : (oneFewer count).toNat = count.toNat - 1 := by
  unfold oneFewer
  split
  · rename_i none
    simp [none]
  · rename_i some
    have positive : count.toNat ≠ 0 := fun none => some (UInt32.toNat_inj.mp none)
    have atLeast : (1 : UInt32) ≤ count := by
      rw [UInt32.le_iff_toNat_le, UInt32.toNat_one]
      omega
    rw [UInt32.toNat_sub_of_le _ _ atLeast, UInt32.toNat_one]

theorem oneFewer_oneMore {count : UInt32} (room : count.toNat + 1 < UInt32.size) :
    oneFewer (count + 1) = count := by
  apply UInt32.toNat_inj.mp
  rw [toNat_oneFewer, toNat_oneMore room, Nat.add_sub_cancel]

def opensBracket (character : Char) : Bool :=
  ['(', '[', '\x7b', '<'].contains character

/-- How many characters of a text open a bracket of any kind. -/
def openings (text : List Char) : Nat :=
  text.countP opensBracket

@[simp] theorem openings_nil : openings [] = 0 := rfl

@[simp] theorem openings_cons (next : Char) (rest : List Char) :
    openings (next :: rest) = (if opensBracket next then 1 else 0) + openings rest := by
  rw [openings, List.countP_cons, Nat.add_comm]
  rfl

@[simp] theorem openings_append (left right : List Char) :
    openings (left ++ right) = openings left + openings right :=
  List.countP_append

/-- Whether a text opens fewer brackets than a scan can count, that is, fewer than `2 ^ 32`. -/
def HasFewBrackets (text : List Char) : Prop :=
  openings text < UInt32.size

instance (text : List Char) : Decidable (HasFewBrackets text) :=
  inferInstanceAs (Decidable (_ < _))

theorem HasFewBrackets.of_append {left right : List Char} (few : HasFewBrackets (left ++ right)) :
    HasFewBrackets left ∧ HasFewBrackets right := by
  rw [HasFewBrackets, openings_append] at few
  exact ⟨by unfold HasFewBrackets; omega, by unfold HasFewBrackets; omega⟩

theorem HasFewBrackets.of_cons {next : Char} {rest : List Char}
    (few : HasFewBrackets (next :: rest)) : HasFewBrackets rest :=
  (@of_append [next] rest few).2

theorem opensBracket_of_isPlain {character : Char} (plain : Nesting.isPlain character = true) :
    opensBracket character = false := by
  simp only [Nesting.isPlain, Bool.not_eq_true', List.contains_eq_mem, decide_eq_false_iff_not,
    List.mem_cons, not_or] at plain
  simp [opensBracket, plain]

theorem HasFewBrackets.append_plain {left right : List Char} (few : HasFewBrackets left)
    (plain : ∀ character ∈ right, Nesting.isPlain character = true) :
    HasFewBrackets (left ++ right) := by
  have none : openings right = 0 := List.countP_eq_zero.mpr fun character member => by
    simp [opensBracket_of_isPlain (plain character member)]
  rw [HasFewBrackets, openings_append, none]
  exact few

namespace Nesting

/-- Whether a scan can count the brackets that a text opens besides those that are open. -/
structure HasRoom (nesting : Nesting) (text : List Char) : Prop where
  brackets : nesting.brackets.toNat + openings text < UInt32.size
  angles : nesting.angles.toNat + openings text < UInt32.size

theorem hasRoom_of_isTop {nesting : Nesting} (top : nesting.isTop = true) {text : List Char}
    (few : HasFewBrackets text) : nesting.HasRoom text := by
  simp only [isTop, Bool.and_eq_true, decide_eq_true_eq] at top
  constructor
  · rw [top.1, UInt32.toNat_zero, Nat.zero_add]
    exact few
  · rw [top.2, UInt32.toNat_zero, Nat.zero_add]
    exact few

theorem hasRoom_start {text : List Char} (few : HasFewBrackets text) : HasRoom {} text :=
  hasRoom_of_isTop rfl few

/-- A character adds at most itself to the counts. -/
theorem toNat_step_le (nesting : Nesting) (next : Char) :
    (nesting.step next).brackets.toNat ≤ nesting.brackets.toNat + openings [next] ∧
      (nesting.step next).angles.toNat ≤ nesting.angles.toNat + openings [next] := by
  unfold step
  split
  · rename_i opens
    have counted : openings [next] = 1 := by
      simp only [Bool.or_eq_true, decide_eq_true_eq] at opens
      rcases opens with (rfl | rfl) | rfl <;> rfl
    rw [counted]
    exact ⟨toNat_oneMore_le _, Nat.le_succ _⟩
  · split
    · exact ⟨by simp; omega, by simp⟩
    · split
      · rename_i opens
        have counted : openings [next] = 1 := by
          simp only [Bool.and_eq_true, decide_eq_true_eq] at opens
          rw [opens.1]
          rfl
        rw [counted]
        exact ⟨Nat.le_succ _, toNat_oneMore_le _⟩
      · split
        · exact ⟨by simp, by simp; omega⟩
        · split <;> exact ⟨by simp, by simp⟩

theorem toNat_steps_le (nesting : Nesting) (text : List Char) :
    (nesting.steps text).brackets.toNat ≤ nesting.brackets.toNat + openings text ∧
      (nesting.steps text).angles.toNat ≤ nesting.angles.toNat + openings text := by
  induction text generalizing nesting with
  | nil => simp
  | cons next rest induction =>
      obtain ⟨brackets, angles⟩ := toNat_step_le nesting next
      obtain ⟨furtherBrackets, furtherAngles⟩ := induction (nesting.step next)
      rw [← List.singleton_append, openings_append, List.singleton_append, steps_cons]
      omega

namespace HasRoom

variable {nesting : Nesting} {left right : List Char}

theorem hasFewBrackets {text : List Char} (room : nesting.HasRoom text) : HasFewBrackets text :=
  Nat.lt_of_le_of_lt (Nat.le_add_left _ _) room.brackets

theorem left_of_append (room : nesting.HasRoom (left ++ right)) : nesting.HasRoom left := by
  obtain ⟨brackets, angles⟩ := room
  rw [openings_append] at brackets angles
  exact ⟨by omega, by omega⟩

theorem steps_of_append (room : nesting.HasRoom (left ++ right)) :
    (nesting.steps left).HasRoom right := by
  obtain ⟨brackets, angles⟩ := room
  obtain ⟨atMostBrackets, atMostAngles⟩ := toNat_steps_le nesting left
  rw [openings_append] at brackets angles
  exact ⟨by omega, by omega⟩

theorem step_of_cons {next : Char} {rest : List Char} (room : nesting.HasRoom (next :: rest)) :
    (nesting.step next).HasRoom rest :=
  @steps_of_append nesting [next] rest room

section

variable {next : Char} {rest : List Char} (room : nesting.HasRoom (next :: rest))
  (opens : opensBracket next = true)

include room opens

theorem brackets_of_cons : nesting.brackets.toNat + 1 < UInt32.size := by
  have brackets := room.brackets
  rw [openings_cons, if_pos opens] at brackets
  omega

theorem angles_of_cons : nesting.angles.toNat + 1 < UInt32.size := by
  have angles := room.angles
  rw [openings_cons, if_pos opens] at angles
  omega

end

end HasRoom

end Nesting

end ScriptRegistrar.ParameterList
