import ScriptRegistrar.Proofs.Bracketing
import ScriptRegistrar.Proofs.NestedText

/-!
# Bracket groups in parameter lists

Round, square and curly brackets are counted together, angle brackets by themselves.  So no comma
in a group of round brackets separates, but an angle bracket in the group counts for what follows:
in `A<(N > 4), int>` the sign in the group closes the bracket in front of it, and the comma behind
the group separates.  What stands in a group matters outside of it only by the number of angle
brackets that are open behind it.
-/

namespace ScriptRegistrar.ParameterList

open Text

/-- What closes the brackets that are open behind a character, the innermost one first, if
`awaited` closes those in front of it. -/
def await? (awaited : List Char) (next : Char) : Option (List Char) :=
  match bracketPairs.find? (·.1 = next) with
  | some pair => some (pair.2 :: awaited)
  | none =>
    if bracketPairs.any (·.2 = next) then
      if awaited.head? = some next then some awaited.tail else none
    else some awaited

/-- What closes the brackets that are open behind a text; `none` if a bracket in it closes none of
its own kind. -/
def awaits? (awaited text : List Char) : Option (List Char) :=
  text.foldlM await? awaited

/-- Whether the round, square and curly brackets of a text are properly nested.  Angle brackets may
stand anywhere. -/
def IsBracketed (text : List Char) : Prop :=
  awaits? [] text = some []

instance (text : List Char) : Decidable (IsBracketed text) :=
  inferInstanceAs (Decidable (_ = _))

@[simp] theorem awaits?_nil (awaited : List Char) : awaits? awaited [] = some awaited := rfl

@[simp] theorem awaits?_cons (awaited : List Char) (next : Char) (rest : List Char) :
    awaits? awaited (next :: rest) = (await? awaited next).bind (awaits? · rest) :=
  List.foldlM_cons

@[simp] theorem awaits?_append (awaited left right : List Char) :
    awaits? awaited (left ++ right) = (awaits? awaited left).bind (awaits? · right) :=
  List.foldlM_append

theorem awaits?_cons_eq_some {awaited behind rest : List Char} {next : Char} :
    awaits? awaited (next :: rest) = some behind ↔
      ∃ middle, await? awaited next = some middle ∧ awaits? middle rest = some behind := by
  simp [Option.bind_eq_some_iff]

theorem awaits?_append_eq_some {awaited behind left right : List Char} :
    awaits? awaited (left ++ right) = some behind ↔
      ∃ middle, awaits? awaited left = some middle ∧ awaits? middle right = some behind := by
  simp [Option.bind_eq_some_iff]

/-- A character that is no bracket of the kinds that count everywhere. -/
def IsOther (character : Char) : Prop :=
  ∀ pair ∈ bracketPairs, character ≠ pair.1 ∧ character ≠ pair.2

/-- A bracket is opened or the awaited one closed, and nothing else changes what is awaited. -/
theorem await?_eq_some {awaited behind : List Char} {next : Char}
    (reads : await? awaited next = some behind) :
    (∃ closing, (next, closing) ∈ bracketPairs ∧ behind = closing :: awaited) ∨
      (∃ opening, (opening, next) ∈ bracketPairs ∧ awaited = next :: behind) ∨
      IsOther next ∧ behind = awaited := by
  unfold await? at reads
  split at reads
  · rename_i pair found
    cases reads
    have same : pair.1 = next := by simpa using List.find?_some found
    exact Or.inl ⟨pair.2, same ▸ List.mem_of_find?_eq_some found, rfl⟩
  · rename_i notOpening
    have opensNone : ∀ pair ∈ bracketPairs, next ≠ pair.1 := fun pair listed same => by
      simpa [same] using List.find?_eq_none.mp notOpening pair listed
    split at reads
    · rename_i closes
      obtain ⟨pair, listed, same⟩ := List.any_eq_true.mp closes
      have same : pair.2 = next := by simpa using same
      cases awaited with
      | nil => simp at reads
      | cons first others =>
          simp only [List.head?_cons, Option.some.injEq, List.tail_cons, Option.ite_none_right_eq_some]
            at reads
          obtain ⟨rfl, rfl⟩ := reads
          exact Or.inr (Or.inl ⟨pair.1, same ▸ listed, rfl⟩)
    · rename_i closesNone
      cases reads
      refine Or.inr (Or.inr ⟨fun pair listed => ⟨opensNone pair listed, fun same => ?_⟩, rfl⟩)
      exact closesNone (List.any_eq_true.mpr ⟨pair, listed, by simp [same]⟩)

theorem await?_append {awaited behind : List Char} {next : Char}
    (reads : await? awaited next = some behind) (further : List Char) :
    await? (awaited ++ further) next = some (behind ++ further) := by
  unfold await? at reads ⊢
  split at reads
  · cases reads
    rfl
  · split at reads
    · cases awaited with
      | nil => simp at reads
      | cons first others =>
          simp only [List.head?_cons, Option.some.injEq, List.tail_cons,
            Option.ite_none_right_eq_some] at reads
          obtain ⟨rfl, rfl⟩ := reads
          simp [*]
    · cases reads
      simp [*]

theorem awaits?_append_awaited {awaited behind text : List Char}
    (reads : awaits? awaited text = some behind) (further : List Char) :
    awaits? (awaited ++ further) text = some (behind ++ further) := by
  induction text generalizing awaited with
  | nil =>
      cases reads
      rfl
  | cons next rest induction =>
      obtain ⟨middle, first, others⟩ := awaits?_cons_eq_some.mp reads
      rw [awaits?_cons, await?_append first]
      exact induction others

theorem IsBracketed.awaits? {text : List Char} (bracketed : IsBracketed text)
    (awaited : List Char) : awaits? awaited text = some awaited :=
  awaits?_append_awaited bracketed awaited

theorem closes_of_awaits? {awaited behind text : List Char}
    (reads : awaits? awaited text = some behind)
    (close : ∀ closing ∈ awaited, ∃ opening, (opening, closing) ∈ bracketPairs) :
    ∀ closing ∈ behind, ∃ opening, (opening, closing) ∈ bracketPairs := by
  induction text generalizing awaited with
  | nil =>
      cases reads
      exact close
  | cons next rest induction =>
      obtain ⟨middle, first, others⟩ := awaits?_cons_eq_some.mp reads
      refine induction others ?_
      rcases await?_eq_some first with ⟨closing, pair, rfl⟩ | ⟨_, _, rfl⟩ | ⟨_, rfl⟩
      · exact List.forall_mem_cons.mpr ⟨⟨next, pair⟩, close⟩
      · exact (List.forall_mem_cons.mp close).2
      · exact close

@[simp] theorem awaits?_replicate (awaited : List Char) (count : Nat) :
    awaits? awaited (List.replicate count '>') = some awaited := by
  induction count with
  | zero => rfl
  | succ count induction =>
      rw [List.replicate_succ, awaits?_cons]
      exact induction

@[simp] theorem awaits?_awaited {awaited : List Char}
    (close : ∀ closing ∈ awaited, ∃ opening, (opening, closing) ∈ bracketPairs) :
    awaits? awaited awaited = some [] := by
  induction awaited with
  | nil => rfl
  | cons closing others induction =>
      obtain ⟨⟨opening, pair⟩, othersClose⟩ := List.forall_mem_cons.mp close
      have closes : await? (closing :: others) closing = some others := by
        simp only [bracketPairs, List.mem_cons, Prod.mk.injEq, List.not_mem_nil, or_false] at pair
        rcases pair with ⟨rfl, rfl⟩ | ⟨rfl, rfl⟩ | ⟨rfl, rfl⟩ <;> rfl
      rw [awaits?_cons, closes]
      exact induction othersClose

namespace Nesting

theorem brackets_step_of_isOther {next : Char} (other : IsOther next) (nesting : Nesting) :
    (nesting.step next).brackets = nesting.brackets := by
  simp only [IsOther, bracketPairs, List.forall_mem_cons, List.not_mem_nil] at other
  obtain ⟨⟨round, roundEnd⟩, ⟨square, squareEnd⟩, ⟨curly, curlyEnd⟩, _⟩ := other
  simp only [step, round, square, curly, roundEnd, squareEnd, curlyEnd, decide_false,
    Bool.or_self, Bool.false_eq_true, if_false]
  repeat' split
  all_goals rfl

theorem brackets_step {awaited behind rest : List Char} {next : Char} {nesting : Nesting}
    {outer : Nat} (room : nesting.HasRoom (next :: rest))
    (reads : await? awaited next = some behind)
    (counted : nesting.brackets.toNat = awaited.length + outer) :
    (nesting.step next).brackets.toNat = behind.length + outer := by
  rcases await?_eq_some reads with ⟨closing, pair, rfl⟩ | ⟨opening, pair, rfl⟩ | ⟨other, rfl⟩
  · have oneMore := toNat_oneMore (room.brackets_of_cons (opensBracket_of_mem pair))
    rw [step_opening pair, List.length_cons]
    change (nesting.brackets + 1).toNat = _
    omega
  · rw [List.length_cons] at counted
    rw [step_closing pair]
    change (oneFewer nesting.brackets).toNat = _
    rw [toNat_oneFewer]
    omega
  · rw [brackets_step_of_isOther other, counted]

theorem inDefault_step {nesting : Nesting} (inner : nesting.isTop = false) (next : Char) :
    (nesting.step next).inDefault = nesting.inDefault := by
  simp only [step, inner, Bool.and_false, Bool.false_eq_true, if_false]
  repeat' split
  all_goals rfl

theorem angles_step {next : Char} (notOpening : next ≠ '<') (notClosing : next ≠ '>')
    (nesting : Nesting) : (nesting.step next).angles = nesting.angles := by
  simp only [step, notOpening, notClosing, decide_false, Bool.false_and, Bool.false_eq_true,
    if_false]
  repeat' split
  all_goals rfl

theorem isTop_of_brackets {nesting : Nesting} {outer : Nat}
    (deep : nesting.brackets.toNat = outer + 1) : nesting.isTop = false := by
  have some : nesting.brackets ≠ 0 := by
    intro none
    rw [none, UInt32.toNat_zero] at deep
    omega
  simp [isTop, some]

/-- In brackets that a text does not close it begins no default value and no comma of it
separates. -/
theorem inside_of_awaits? {awaited behind text : List Char} {nesting : Nesting} {outer : Nat}
    (room : nesting.HasRoom text) (reads : awaits? awaited text = some behind)
    (deep : nesting.brackets.toNat = awaited.length + (outer + 1)) :
    (nesting.steps text).brackets.toNat = behind.length + (outer + 1) ∧
      (nesting.steps text).inDefault = nesting.inDefault ∧ nesting.Hides ',' text := by
  induction text generalizing awaited nesting with
  | nil =>
      cases reads
      exact ⟨deep, rfl, trivial⟩
  | cons next rest induction =>
      obtain ⟨middle, first, others⟩ := awaits?_cons_eq_some.mp reads
      have inner : nesting.isTop = false := isTop_of_brackets deep
      obtain ⟨counted, inDefault, hides⟩ :=
        induction room.step_of_cons others (brackets_step room first deep)
      rw [inDefault_step inner] at inDefault
      exact ⟨counted, inDefault, fun _ => inner, hides⟩

/-- In a type, in brackets that the text does not close, angle brackets that are closed leave no
trace. -/
theorem angles_steps_of_balanced {awaited behind text : List Char} {nesting : Nesting}
    {outer : Nat}
    (balanced : Bracketed.Balanced '<' '>' text) (room : nesting.HasRoom text)
    (reads : awaits? awaited text = some behind)
    (deep : nesting.brackets.toNat = awaited.length + (outer + 1))
    (inType : nesting.inDefault = false) : (nesting.steps text).angles = nesting.angles := by
  induction balanced generalizing awaited behind nesting with
  | nil => rfl
  | @other next rest notOpening notClosing _ induction =>
      obtain ⟨middle, first, others⟩ := awaits?_cons_eq_some.mp reads
      rw [steps_cons, induction room.step_of_cons others (brackets_step room first deep)
        ((inDefault_step (isTop_of_brackets deep) next).trans inType),
        angles_step notOpening notClosing]
  | @group inside rest _ _ within others =>
      have opens := step_opening_angle inType
      obtain ⟨_, opening, reads⟩ := awaits?_cons_eq_some.mp reads
      cases opening
      obtain ⟨middle, readsInside, reads⟩ := awaits?_append_eq_some.mp reads
      obtain ⟨_, closing, readsRest⟩ := awaits?_cons_eq_some.mp reads
      cases closing
      have deepInside : (nesting.step '<').brackets.toNat = awaited.length + (outer + 1) := by
        rw [opens, ← deep]
      have inTypeInside : (nesting.step '<').inDefault = false := by
        rw [opens, ← inType]
      have roomInside := room.step_of_cons
      obtain ⟨counted, inDefault, _⟩ :=
        inside_of_awaits? roomInside.left_of_append readsInside deepInside
      have angles := within roomInside.left_of_append readsInside deepInside inTypeInside
      have oneMore := oneFewer_oneMore (room.angles_of_cons rfl)
      rw [steps_cons, steps_append, steps_cons,
        others roomInside.steps_of_append.step_of_cons readsRest
          (by rw [step_closing_angle]; exact counted)
          (by rw [step_closing_angle]; exact inDefault.trans inTypeInside),
        step_closing_angle, angles, opens]
      exact oneMore

end Nesting

/-- Which characters of a text are separators. -/
def cutsFrom (nesting : Nesting) (text : List Char) : List Bool :=
  [true].intercalate ((splitFrom ',' nesting text).map fun piece => piece.map fun _ => false)

/-- Which characters of a parameter list separate parameters. -/
def cuts (text : List Char) : List Bool :=
  [true].intercalate ((splitTop ',' text).map fun piece => piece.map fun _ => false)

namespace Nesting

/-- The nesting behind a character that may separate. -/
def pass (nesting : Nesting) (next : Char) : Nesting :=
  if next = ',' && nesting.isTop then {} else nesting.step next

/-- The nesting behind a text that is split. -/
def passes (nesting : Nesting) (text : List Char) : Nesting :=
  text.foldl pass nesting

@[simp] theorem passes_cons (nesting : Nesting) (next : Char) (rest : List Char) :
    nesting.passes (next :: rest) = (nesting.pass next).passes rest := rfl

@[simp] theorem passes_append (nesting : Nesting) (left right : List Char) :
    nesting.passes (left ++ right) = (nesting.passes left).passes right :=
  List.foldl_append

theorem passes_of_hides {nesting : Nesting} {text : List Char} (hides : nesting.Hides ',' text) :
    nesting.passes text = nesting.steps text := by
  induction text generalizing nesting with
  | nil => rfl
  | cons next rest induction =>
      have hidden : (next = ',' && nesting.isTop) = false := by
        by_cases same : next = ','
        · simp [hides.1 same]
        · simp [same]
      rw [passes_cons, pass, hidden, steps_cons]
      exact induction hides.2

theorem HasRoom.pass_of_cons {nesting : Nesting} {next : Char} {rest : List Char}
    (room : nesting.HasRoom (next :: rest)) : (nesting.pass next).HasRoom rest := by
  unfold pass
  split
  · exact hasRoom_start room.hasFewBrackets.of_cons
  · exact room.step_of_cons

theorem HasRoom.passes_of_append {nesting : Nesting} {left right : List Char}
    (room : nesting.HasRoom (left ++ right)) : (nesting.passes left).HasRoom right := by
  induction left generalizing nesting with
  | nil => exact room
  | cons next rest induction => exact induction room.pass_of_cons

/-- The brackets that are counted are those that something awaits. -/
theorem brackets_passes {awaited behind text : List Char} {nesting : Nesting}
    (room : nesting.HasRoom text) (reads : awaits? awaited text = some behind)
    (counted : nesting.brackets.toNat = awaited.length) :
    (nesting.passes text).brackets.toNat = behind.length := by
  induction text generalizing awaited nesting with
  | nil =>
      cases reads
      exact counted
  | cons next rest induction =>
      obtain ⟨middle, first, others⟩ := awaits?_cons_eq_some.mp reads
      refine induction room.pass_of_cons others ?_
      rw [pass]
      split
      · rename_i separates
        rw [Bool.and_eq_true, decide_eq_true_eq] at separates
        obtain ⟨rfl, top⟩ := separates
        have none : nesting.brackets = 0 := by
          simp only [isTop, Bool.and_eq_true, decide_eq_true_eq] at top
          exact top.1
        rw [none, UInt32.toNat_zero] at counted
        have nothing : awaited = [] := List.length_eq_zero_iff.mp counted.symm
        subst nothing
        cases first
        rfl
      · exact @brackets_step _ _ _ _ _ 0 room first counted

end Nesting

@[simp] theorem cutsFrom_nil (nesting : Nesting) : cutsFrom nesting [] = [] := rfl

@[simp] theorem cutsFrom_cons (nesting : Nesting) (next : Char) (rest : List Char) :
    cutsFrom nesting (next :: rest) =
      (next = ',' && nesting.isTop) :: cutsFrom (nesting.pass next) rest := by
  rw [cutsFrom, splitFrom_cons, Nesting.pass]
  cases separates : (decide (next = ',') && nesting.isTop) with
  | true =>
      rw [cutsFrom]
      cases pieces : splitFrom ',' {} rest with
      | nil => exact (splitFrom_ne_nil _ _ _ pieces).elim
      | cons piece others => simp [List.intercalate_cons_cons, pieces]
  | false =>
      rw [cutsFrom]
      cases pieces : splitFrom ',' (nesting.step next) rest with
      | nil => exact (splitFrom_ne_nil _ _ _ pieces).elim
      | cons piece others =>
          simp only [Bool.false_eq_true, if_false, pieces]
          cases others <;> rfl

@[simp] theorem cutsFrom_append (nesting : Nesting) (left right : List Char) :
    cutsFrom nesting (left ++ right) = cutsFrom nesting left ++ cutsFrom (nesting.passes left) right := by
  induction left generalizing nesting with
  | nil => rfl
  | cons next rest induction => simp [induction]

@[simp] theorem length_cutsFrom (nesting : Nesting) (text : List Char) :
    (cutsFrom nesting text).length = text.length := by
  induction text generalizing nesting with
  | nil => rfl
  | cons next rest induction => simp [induction]

theorem cutsFrom_eq_iff (left right : Nesting) (text : List Char) :
    cutsFrom left text = cutsFrom right text ↔ beforeTop ',' left text = beforeTop ',' right text := by
  induction text generalizing left right with
  | nil => simp [beforeTop]
  | cons next rest induction =>
      rw [cutsFrom_cons, cutsFrom_cons, beforeTop, beforeTop, Nesting.pass, Nesting.pass]
      cases leftCuts : (decide (next = ',') && left.isTop) <;>
        cases rightCuts : (decide (next = ',') && right.isTop) <;> simp [induction]

/-- Text in round brackets. -/
def group (inside : List Char) : List Char :=
  '(' :: (inside ++ [')'])

/-- Whether a text is split at the same places outside a group, whichever of two texts stands in
it. -/
def SplitsAlike (before inside other behind : List Char) : Prop :=
  (cuts (before ++ (group inside ++ behind))).take before.length =
      (cuts (before ++ (group other ++ behind))).take before.length ∧
    (cuts (before ++ (group inside ++ behind))).drop (before ++ group inside).length =
      (cuts (before ++ (group other ++ behind))).drop (before ++ group other).length

instance (before inside other behind : List Char) :
    Decidable (SplitsAlike before inside other behind) :=
  inferInstanceAs (Decidable (_ ∧ _))

/-- The nesting behind a group. -/
def nestingBehind (before inside : List Char) : Nesting :=
  Nesting.passes {} (before ++ group inside)

section

variable {inside : List Char} (isInside : IsBracketed inside)

include isInside

@[simp] theorem awaits?_group (awaited : List Char) :
    awaits? awaited (group inside) = some awaited := by
  have opens : await? awaited '(' = some (')' :: awaited) := rfl
  have closes : await? (')' :: awaited) ')' = some awaited := rfl
  simp [group, opens, isInside.awaits?, closes]

theorem steps_group {nesting : Nesting} (room : nesting.HasRoom (group inside)) :
    (∃ angles, nesting.steps (group inside) = { nesting with angles, previous := some ')' }) ∧
      nesting.Hides ',' (group inside) := by
  have opens := Nesting.step_opening (show ('(', ')') ∈ bracketPairs by decide) nesting
  have closes := @Nesting.step_closing '(' ')' (by decide)
  have roomForOne : nesting.brackets.toNat + 1 < UInt32.size := room.brackets_of_cons rfl
  have deep : (nesting.step '(').brackets.toNat =
      ([] : List Char).length + (nesting.brackets.toNat + 1) := by
    rw [opens, List.length_nil, Nat.zero_add, toNat_oneMore roomForOne]
  obtain ⟨counted, inDefault, hides⟩ :=
    Nesting.inside_of_awaits? room.step_of_cons.left_of_append isInside deep
  rw [List.length_nil, Nat.zero_add] at counted
  have inner : ((nesting.step '(').steps inside).isTop = false := Nesting.isTop_of_brackets counted
  have closed : oneFewer ((nesting.step '(').steps inside).brackets = nesting.brackets := by
    rw [← UInt32.toNat_inj, toNat_oneFewer, counted, Nat.add_sub_cancel]
  constructor
  · refine ⟨((nesting.step '(').steps inside).angles, ?_⟩
    have unchanged : (nesting.step '(').inDefault = nesting.inDefault := by rw [opens]
    simp [group, closes, closed, inDefault, unchanged]
  · rw [group]
    refine ⟨by simp, Nesting.hides_append.mpr ⟨hides, fun _ => inner, trivial⟩⟩

theorem nestingBehind_eq {before : List Char} (few : HasFewBrackets (before ++ group inside)) :
    ∃ angles, nestingBehind before inside =
      { Nesting.passes {} before with angles, previous := some ')' } := by
  obtain ⟨leads, hides⟩ := steps_group isInside (Nesting.hasRoom_start few).passes_of_append
  rwa [nestingBehind, Nesting.passes_append, Nesting.passes_of_hides hides]

end

theorem cuts_append_group (before inside behind : List Char) :
    cuts (before ++ (group inside ++ behind)) = cutsFrom {} before ++
      (cutsFrom (Nesting.passes {} before) (group inside) ++
        cutsFrom (nestingBehind before inside) behind) := by
  rw [nestingBehind, Nesting.passes_append, ← cutsFrom_append, ← cutsFrom_append]
  rfl

theorem splitsAlike_iff (before inside other behind : List Char) :
    SplitsAlike before inside other behind ↔
      cutsFrom (nestingBehind before inside) behind = cutsFrom (nestingBehind before other) behind := by
  have front : ∀ inside, (cuts (before ++ (group inside ++ behind))).take before.length =
      cutsFrom {} before := by
    intro inside
    rw [cuts_append_group, List.take_left' (length_cutsFrom {} before)]
  have back : ∀ inside, (cuts (before ++ (group inside ++ behind))).drop
      (before ++ group inside).length = cutsFrom (nestingBehind before inside) behind := by
    intro inside
    rw [cuts_append_group, ← List.append_assoc, List.drop_left']
    simp
  rw [SplitsAlike, front, front, back, back]
  exact and_iff_right rfl

theorem steps_closings {awaited : List Char}
    (close : ∀ closing ∈ awaited, ∃ opening, (opening, closing) ∈ bracketPairs) (nesting : Nesting) :
    (nesting.steps awaited).brackets.toNat = nesting.brackets.toNat - awaited.length ∧
      (nesting.steps awaited).angles = nesting.angles := by
  induction awaited generalizing nesting with
  | nil => exact ⟨rfl, rfl⟩
  | cons closing others induction =>
      obtain ⟨⟨opening, pair⟩, othersClose⟩ := List.forall_mem_cons.mp close
      obtain ⟨counted, angles⟩ := induction othersClose (nesting.step closing)
      rw [Nesting.step_closing pair] at counted angles
      rw [Nesting.steps_cons, Nesting.step_closing pair, counted, angles, List.length_cons,
        toNat_oneFewer]
      exact ⟨Nat.sub_sub _ _ _ |>.trans (by rw [Nat.add_comm]), rfl⟩

theorem steps_replicate (count : Nat) (nesting : Nesting) :
    (nesting.steps (List.replicate count '>')).brackets = nesting.brackets ∧
      (nesting.steps (List.replicate count '>')).angles.toNat = nesting.angles.toNat - count := by
  induction count generalizing nesting with
  | zero => exact ⟨rfl, rfl⟩
  | succ count induction =>
      obtain ⟨counted, angles⟩ := induction (nesting.step '>')
      rw [List.replicate_succ, Nesting.steps_cons, counted, angles, Nesting.step_closing_angle,
        toNat_oneFewer]
      exact ⟨rfl, Nat.sub_sub _ _ _ |>.trans (by rw [Nat.add_comm])⟩

theorem isTop_behind_closings {awaited : List Char}
    (close : ∀ closing ∈ awaited, ∃ opening, (opening, closing) ∈ bracketPairs) {nesting : Nesting}
    (counted : nesting.brackets.toNat = awaited.length) (count : Nat) :
    (nesting.passes (awaited ++ List.replicate count '>')).isTop =
      decide (nesting.angles.toNat ≤ count) := by
  have absent : ',' ∉ awaited ++ List.replicate count '>' := by
    simp only [List.mem_append, List.mem_replicate, not_or, not_and]
    refine ⟨fun listed => ?_, fun _ => by decide⟩
    obtain ⟨opening, pair⟩ := close _ listed
    simp [bracketPairs] at pair
  obtain ⟨none, angles⟩ := steps_closings close nesting
  obtain ⟨still, fewer⟩ := steps_replicate count (nesting.steps awaited)
  rw [counted, Nat.sub_self, ← UInt32.toNat_zero, UInt32.toNat_inj] at none
  rw [Nesting.passes_of_hides (Nesting.hides_of_not_mem absent), Nesting.steps_append,
    Nesting.isTop, still, none]
  simp only [decide_true, Bool.true_and]
  rw [decide_eq_decide, ← UInt32.toNat_inj, fewer, angles, UInt32.toNat_zero,
    Nat.sub_eq_zero_iff_le]

/-- Two counts of angle brackets are told apart by a comma behind as many `>`. -/
theorem angles_eq_of_cutsFrom {awaited : List Char}
    (close : ∀ closing ∈ awaited, ∃ opening, (opening, closing) ∈ bracketPairs)
    {left right : Nesting} (leftCounted : left.brackets.toNat = awaited.length)
    (rightCounted : right.brackets.toNat = awaited.length)
    (alike : ∀ count, cutsFrom left (awaited ++ List.replicate count '>' ++ [',']) =
      cutsFrom right (awaited ++ List.replicate count '>' ++ [','])) :
    left.angles = right.angles := by
  have sameTop : ∀ count : Nat,
      decide (left.angles.toNat ≤ count) = decide (right.angles.toNat ≤ count) := by
    intro count
    have cut := alike count
    rw [cutsFrom_append left, cutsFrom_append right] at cut
    have last := List.append_inj_right cut (by rw [length_cutsFrom, length_cutsFrom])
    rw [cutsFrom_cons, cutsFrom_cons, cutsFrom_nil, cutsFrom_nil,
      isTop_behind_closings close leftCounted, isTop_behind_closings close rightCounted] at last
    simpa using last
  have atMost : right.angles.toNat ≤ left.angles.toNat := by
    simpa using sameTop left.angles.toNat
  have atLeast : left.angles.toNat ≤ right.angles.toNat := by
    simpa using sameTop right.angles.toNat
  exact UInt32.toNat_inj.mp (Nat.le_antisymm atLeast atMost)

/-- A group may be exchanged in front of any text exactly if the same number of angle brackets is
open behind it. -/
theorem angles_eq_iff {before inside other awaited : List Char} (isInside : IsBracketed inside)
    (isOther : IsBracketed other) (few : HasFewBrackets (before ++ group inside))
    (fewOther : HasFewBrackets (before ++ group other)) (reads : awaits? [] before = some awaited) :
    (nestingBehind before inside).angles = (nestingBehind before other).angles ↔
      ∀ ahead, IsBracketed (before ++ (group inside ++ ahead)) →
        SplitsAlike before inside other ahead := by
  have readsGroup : ∀ {inside}, IsBracketed inside →
      awaits? [] (before ++ group inside) = some awaited := by
    intro inside isInside
    simp [reads, isInside]
  simp only [splitsAlike_iff]
  constructor
  · obtain ⟨insideAngles, insideBehind⟩ := nestingBehind_eq isInside few
    obtain ⟨otherAngles, otherBehind⟩ := nestingBehind_eq isOther fewOther
    rw [insideBehind, otherBehind]
    rintro rfl ahead _
    rfl
  · intro alike
    have close := closes_of_awaits? reads (by simp)
    refine angles_eq_of_cutsFrom close
      (Nesting.brackets_passes (Nesting.hasRoom_start few) (readsGroup isInside) rfl)
      (Nesting.brackets_passes (Nesting.hasRoom_start fewOther) (readsGroup isOther) rfl)
      fun count => alike _ ?_
    have comma : await? [] ',' = some [] := rfl
    rw [IsBracketed, ← List.append_assoc, awaits?_append, readsGroup isInside]
    simp [awaits?_awaited close, comma]

theorem angles_nestingBehind {before inside : List Char} (isInside : IsBracketed inside)
    (few : HasFewBrackets (before ++ group inside))
    (inType : (Nesting.passes {} before).inDefault = false)
    (balanced : Bracketed.Balanced '<' '>' inside) :
    (nestingBehind before inside).angles = (Nesting.passes {} before).angles := by
  have room : (Nesting.passes {} before).HasRoom (group inside) :=
    (Nesting.hasRoom_start few).passes_of_append
  obtain ⟨_, hides⟩ := steps_group isInside room
  have opens := Nesting.step_opening (show ('(', ')') ∈ bracketPairs by decide)
    (Nesting.passes {} before)
  have angles := Nesting.angles_steps_of_balanced balanced room.step_of_cons.left_of_append isInside
    (show ((Nesting.passes {} before).step '(').brackets.toNat = [].length + _ by
      rw [opens, List.length_nil, Nat.zero_add]
      exact toNat_oneMore (room.brackets_of_cons rfl))
    (by rw [opens]; exact inType)
  rw [nestingBehind, Nesting.passes_append, Nesting.passes_of_hides hides, group,
    Nesting.steps_cons, Nesting.steps_append, Nesting.steps_cons,
    @Nesting.step_closing '(' ')' (by decide)]
  change ((Nesting.step _ '(').steps inside).angles = _
  rw [angles, opens]

theorem getElem?_cuts {front back awaited : List Char} {closing : Char}
    (few : HasFewBrackets front) (reads : awaits? [] front = some (closing :: awaited)) :
    (cuts (front ++ ',' :: back))[front.length]? = some false := by
  have deep := Nesting.brackets_passes (Nesting.hasRoom_start few) reads rfl
  have cut : cuts (front ++ ',' :: back) = cutsFrom {} front ++
      cutsFrom (Nesting.passes {} front) (',' :: back) := cutsFrom_append {} front _
  simp [cut, Nesting.isTop_of_brackets deep]

/-- In a text with properly nested brackets and fewer than 2^32 opening ones, no comma inside of
round, square or curly brackets separates.  To exchange what stands in a group of round brackets
leaves the separators outside of it alone exactly if the first one behind it stays.  It does so
whatever stands behind the group exactly if as many angle brackets are open there as before, and
that is so in a type if both texts close the angle brackets they open. -/
theorem splitsAlike_groups {before inside other behind : List Char}
    (bracketed : IsBracketed (before ++ (group inside ++ behind)))
    (isInside : IsBracketed inside) (isOther : IsBracketed other)
    (few : HasFewBrackets (before ++ (group inside ++ behind)))
    (fewOther : HasFewBrackets (before ++ (group other ++ behind))) :
    (∀ front back closing awaited, before ++ (group inside ++ behind) = front ++ ',' :: back →
      awaits? [] front = some (closing :: awaited) →
        (cuts (before ++ (group inside ++ behind)))[front.length]? = some false) ∧
    (SplitsAlike before inside other behind ↔
      beforeTop ',' (nestingBehind before inside) behind =
        beforeTop ',' (nestingBehind before other) behind) ∧
    ((nestingBehind before inside).angles = (nestingBehind before other).angles ↔
      ∀ ahead, IsBracketed (before ++ (group inside ++ ahead)) →
        SplitsAlike before inside other ahead) ∧
    ((Nesting.passes {} before).inDefault = false → Bracketed.Balanced '<' '>' inside →
      Bracketed.Balanced '<' '>' other → SplitsAlike before inside other behind) := by
  obtain ⟨awaited, reads, _⟩ := awaits?_append_eq_some.mp bracketed
  have fewUpTo : HasFewBrackets (before ++ group inside) := by
    rw [← List.append_assoc] at few
    exact few.of_append.1
  have fewUpToOther : HasFewBrackets (before ++ group other) := by
    rw [← List.append_assoc] at fewOther
    exact fewOther.of_append.1
  have anywhere := angles_eq_iff isInside isOther fewUpTo fewUpToOther reads
  refine ⟨fun front back closing awaited shape reads => ?_, ?_, anywhere, ?_⟩
  · rw [shape] at few ⊢
    exact getElem?_cuts few.of_append.1 reads
  · rw [splitsAlike_iff, cutsFrom_eq_iff]
  · intro inType insideBalanced otherBalanced
    refine anywhere.mp ?_ behind bracketed
    rw [angles_nestingBehind isInside fewUpTo inType insideBalanced,
      angles_nestingBehind isOther fewUpToOther inType otherBalanced]

/-- One template argument may be exchanged for another. -/
theorem splitsAlike_groups_template :
    SplitsAlike "A<".toList "N".toList "N, B<4>".toList ", int> x, int y".toList := by
  have letters : Bracketed.Balanced '<' '>' "N".toList :=
    .of_not_mem (by decide) (by decide)
  have inside : Bracketed.Balanced '<' '>' "4".toList := .of_not_mem (by decide) (by decide)
  have before : Bracketed.Balanced '<' '>' "N, B".toList := .of_not_mem (by decide) (by decide)
  exact (splitsAlike_groups (by decide) (by decide) (by decide) (by decide) (by decide)).2.2.2 rfl
    letters (before.append (.group inside .nil))

/-- A comparison in a group closes the bracket around the group. -/
theorem splitsAlike_groups_comparison :
    (¬ ∀ before inside other behind : List Char,
      IsBracketed (before ++ (group inside ++ behind)) → IsBracketed inside → IsBracketed other →
        SplitsAlike before inside other behind) ∧
    parse "A<(N > 4), int> x" = ["A<(N>4)", "int>"] := by
  refine ⟨fun alike => ?_, by decide⟩
  exact absurd (alike "A<".toList "N".toList "N > 4".toList ", int> x".toList (by decide) (by decide)
    (by decide)) (by decide)

end ScriptRegistrar.ParameterList
