import ScriptRegistrar.Proofs.Bracketing

/-!
# How many brackets are open

Reading a text changes the number of open brackets.  A text is balanced if it leaves that number
as it was, and only the brackets of a text decide whether it is.  So a balanced part of a text may
be left out or exchanged for another.
-/

namespace ScriptRegistrar.Bracketed

/-- The number of open brackets behind a character; `none` if it closes a bracket and none is
open. -/
def step? (opening closing : Char) (depth : Nat) (next : Char) : Option Nat :=
  if next = opening then some (depth + 1)
  else if next = closing then if depth = 0 then none else some (depth - 1)
  else some depth

/-- The number of open brackets behind a text; `none` if the text closes one that is not open. -/
def openBehind? (opening closing : Char) (depth : Nat) (text : List Char) : Option Nat :=
  text.foldlM (step? opening closing) depth

variable {opening closing : Char}

@[simp] theorem openBehind?_cons (depth : Nat) (next : Char) (rest : List Char) :
    openBehind? opening closing depth (next :: rest) =
      (step? opening closing depth next).bind
        fun further => openBehind? opening closing further rest :=
  List.foldlM_cons

@[simp] theorem openBehind?_append (depth : Nat) (left right : List Char) :
    openBehind? opening closing depth (left ++ right) =
      (openBehind? opening closing depth left).bind
        fun further => openBehind? opening closing further right :=
  List.foldlM_append

@[simp] theorem step?_of_ne {next : Char} (notOpening : next ≠ opening)
    (notClosing : next ≠ closing)
    (depth : Nat) : step? opening closing depth next = some depth := by
  rw [step?, if_neg notOpening, if_neg notClosing]

@[simp] theorem step?_opening (depth : Nat) :
    step? opening closing depth opening = some (depth + 1) :=
  if_pos rfl

@[simp] theorem step?_closing (different : closing ≠ opening) (depth : Nat) :
    step? opening closing (depth + 1) closing = some depth := by
  rw [step?, if_neg different, if_pos rfl, if_neg (Nat.succ_ne_zero depth), Nat.add_sub_cancel]

theorem step?_cases {depth further : Nat} {next : Char}
    (stepped : step? opening closing depth next = some further) :
    (next = opening ∧ further = depth + 1) ∨ (next = closing ∧ depth = further + 1) ∨
      (next ≠ opening ∧ next ≠ closing ∧ further = depth) := by
  rw [step?] at stepped
  split at stepped
  · rename_i isOpening
    cases stepped
    exact Or.inl ⟨isOpening, rfl⟩
  · rename_i notOpening
    split at stepped
    · rename_i isClosing
      split at stepped
      · cases stepped
      · cases stepped
        exact Or.inr (Or.inl ⟨isClosing, by omega⟩)
    · rename_i notClosing
      cases stepped
      exact Or.inr (Or.inr ⟨notOpening, notClosing, rfl⟩)

theorem openBehind?_filter {test : Char → Bool} (keepsOpening : test opening = true)
    (keepsClosing : test closing = true) (depth : Nat) (text : List Char) :
    openBehind? opening closing depth (text.filter test) =
      openBehind? opening closing depth text := by
  induction text generalizing depth with
  | nil => rfl
  | cons next rest induction =>
      cases kept : test next with
      | true =>
          rw [List.filter_cons_of_pos kept, openBehind?_cons, openBehind?_cons]
          simp only [induction]
      | false =>
          have notOpening : next ≠ opening := by
            rintro rfl
            simp [keepsOpening] at kept
          have notClosing : next ≠ closing := by
            rintro rfl
            simp [keepsClosing] at kept
          rw [List.filter_cons_of_neg (by simp [kept]), induction, openBehind?_cons,
            step?_of_ne notOpening notClosing, Option.bind_some]

/-- A text that closes the brackets open before it is made of balanced parts with a closing
bracket behind each but the last. -/
theorem balanced_parts_of_openBehind? {depth : Nat} {text : List Char}
    (closes : openBehind? opening closing depth text = some 0) :
    ∃ (first : List Char) (parts : List (List Char)), parts.length = depth ∧
      Balanced opening closing first ∧ (∀ part ∈ parts, Balanced opening closing part) ∧
        text = first ++ parts.flatMap (closing :: ·) := by
  induction text generalizing depth with
  | nil =>
      cases closes
      exact ⟨[], [], rfl, .nil, by simp, rfl⟩
  | cons next rest induction =>
      obtain ⟨further, stepped, closesRest⟩ :=
        Option.bind_eq_some_iff.mp ((openBehind?_cons depth next rest).symm.trans closes)
      obtain ⟨first, parts, count, balanced, areBalanced, shape⟩ := induction closesRest
      rcases step?_cases stepped with
        ⟨isOpening, rfl⟩ | ⟨isClosing, rfl⟩ | ⟨notOpening, notClosing, rfl⟩
      · obtain ⟨second, others, rfl⟩ := List.exists_cons_of_length_eq_add_one count
        obtain ⟨secondBalanced, othersBalanced⟩ := List.forall_mem_cons.mp areBalanced
        refine ⟨opening :: (first ++ closing :: second), others, by simpa using count,
          .group balanced secondBalanced, othersBalanced, ?_⟩
        rw [isOpening, shape]
        simp
      · refine ⟨[], first :: parts, by rw [List.length_cons, count], .nil,
          List.forall_mem_cons.mpr ⟨balanced, areBalanced⟩, ?_⟩
        rw [isClosing, shape]
        simp
      · exact ⟨next :: first, parts, count, .other notOpening notClosing balanced, areBalanced,
          by rw [shape, List.cons_append]⟩

section

variable (different : closing ≠ opening)

include different

theorem openBehind?_of_balanced {text : List Char} (balanced : Balanced opening closing text)
    (depth : Nat) : openBehind? opening closing depth text = some depth := by
  induction balanced generalizing depth with
  | nil => rfl
  | other notOpening notClosing _ induction =>
      simp [step?_of_ne notOpening notClosing, induction]
  | group _ _ insideInduction behindInduction =>
      simp [insideInduction, step?_closing different, behindInduction]

theorem balanced_iff {text : List Char} :
    Balanced opening closing text ↔ openBehind? opening closing 0 text = some 0 := by
  constructor
  · intro balanced
    exact openBehind?_of_balanced different balanced 0
  · intro closes
    obtain ⟨first, parts, count, balanced, _, rfl⟩ := balanced_parts_of_openBehind? closes
    rw [List.eq_nil_of_length_eq_zero count]
    simpa using balanced

theorem balanced_congr {left right : List Char} (test : Char → Bool)
    (keepsOpening : test opening = true) (keepsClosing : test closing = true)
    (same : left.filter test = right.filter test) :
    Balanced opening closing left ↔ Balanced opening closing right := by
  rw [balanced_iff different, balanced_iff different,
    ← openBehind?_filter keepsOpening keepsClosing 0 left, same,
    openBehind?_filter keepsOpening keepsClosing 0 right]

theorem Balanced.exchange {before part other behind : List Char}
    (balanced : Balanced opening closing (before ++ (part ++ behind)))
    (partBalanced : Balanced opening closing part)
    (otherBalanced : Balanced opening closing other) :
    Balanced opening closing (before ++ (other ++ behind)) := by
  have same : ∀ depth, openBehind? opening closing depth (part ++ behind) =
      openBehind? opening closing depth (other ++ behind) := by
    intro depth
    rw [openBehind?_append, openBehind?_append, openBehind?_of_balanced different partBalanced,
      openBehind?_of_balanced different otherBalanced]
  rw [balanced_iff different, openBehind?_append] at balanced ⊢
  simpa only [same] using balanced

/-- The same for a balanced part in brackets. -/
theorem Balanced.exchange_group {before part other behind : List Char}
    (balanced : Balanced opening closing (before ++ opening :: (part ++ closing :: behind)))
    (partBalanced : Balanced opening closing part)
    (otherBalanced : Balanced opening closing other) :
    Balanced opening closing (before ++ opening :: (other ++ closing :: behind)) := by
  have group : ∀ {inside : List Char}, Balanced opening closing inside →
      Balanced opening closing (opening :: (inside ++ [closing])) :=
    fun within => .group within .nil
  have exchanged := @Balanced.exchange _ _ different before (opening :: (part ++ [closing]))
    (opening :: (other ++ [closing])) behind (by simpa using balanced) (group partBalanced)
    (group otherBalanced)
  simpa using exchanged

theorem exists_openBehind?_of_balanced {before behind : List Char}
    (balanced : Balanced opening closing (before ++ behind)) :
    ∃ depth, openBehind? opening closing 0 before = some depth ∧
      openBehind? opening closing depth behind = some 0 := by
  have closes := (balanced_iff different).mp balanced
  rw [openBehind?_append] at closes
  exact Option.bind_eq_some_iff.mp closes

/-- Where a bracket is open, the last of those that are stands in front of a balanced text. -/
theorem exists_opening_of_openBehind? {depth : Nat} {text : List Char}
    (isOpen : openBehind? opening closing 0 text = some (depth + 1)) :
    ∃ outer inside, text = outer ++ opening :: inside ∧
      openBehind? opening closing 0 outer = some depth ∧ Balanced opening closing inside := by
  generalize length : text.length = bound
  induction bound using Nat.strongRecOn generalizing text depth with
  | ind bound induction =>
      rcases text.eq_nil_or_concat with rfl | ⟨front, last, rfl⟩
      · cases isOpen
      · rw [List.concat_eq_append, List.length_append, List.length_singleton] at length
        rw [List.concat_eq_append, openBehind?_append] at isOpen
        rw [List.concat_eq_append]
        obtain ⟨before, openBefore, stepped⟩ := Option.bind_eq_some_iff.mp isOpen
        rw [openBehind?_cons, show openBehind? opening closing = fun further text =>
          text.foldlM (step? opening closing) further from rfl] at stepped
        simp only [List.foldlM_nil, Option.pure_def, Option.bind_fun_some] at stepped
        rcases step?_cases stepped with
          ⟨rfl, sameDepth⟩ | ⟨rfl, rfl⟩ | ⟨notOpening, notClosing, rfl⟩
        · rw [Nat.add_right_cancel_iff] at sameDepth
          exact ⟨front, [], rfl, sameDepth ▸ openBefore, .nil⟩
        · -- The group that ends here stands behind the bracket that stays open.
          obtain ⟨first, inner, rfl, openFirst, innerBalanced⟩ :=
            induction front.length (by omega) openBefore rfl
          rw [List.length_append, List.length_cons] at length
          obtain ⟨outer, left, rfl, openOuter, leftBalanced⟩ :=
            induction first.length (by omega) openFirst rfl
          refine ⟨outer, left ++ opening :: (inner ++ last :: []), by simp, openOuter,
            leftBalanced.append (.group innerBalanced .nil)⟩
        · obtain ⟨outer, inside, rfl, openOuter, balanced⟩ :=
            induction front.length (by omega) openBefore rfl
          refine ⟨outer, inside ++ [last], by simp, openOuter, balanced.append ?_⟩
          exact .other notOpening notClosing .nil

theorem exists_group_of_openBehind? {depth : Nat} {before behind : List Char}
    (isOpen : openBehind? opening closing 0 before = some (depth + 1))
    (closes : openBehind? opening closing (depth + 1) behind = some 0) :
    ∃ outer left right rest, before = outer ++ opening :: left ∧
      behind = right ++ closing :: rest ∧ Balanced opening closing (left ++ right) := by
  obtain ⟨outer, left, rfl, _, leftBalanced⟩ := exists_opening_of_openBehind? different isOpen
  obtain ⟨right, parts, count, rightBalanced, _, rfl⟩ := balanced_parts_of_openBehind? closes
  obtain ⟨second, others, rfl⟩ := List.exists_cons_of_length_eq_add_one count
  exact ⟨outer, left, right, _, rfl, rfl, leftBalanced.append rightBalanced⟩

/-- What is open behind a text is what it opens and does not close. -/
theorem count_of_openBehind? {depth further : Nat} {text : List Char}
    (isOpen : openBehind? opening closing depth text = some further) :
    depth + text.count opening = further + text.count closing := by
  induction text generalizing depth with
  | nil =>
      cases isOpen
      rfl
  | cons next rest induction =>
      rw [openBehind?_cons] at isOpen
      obtain ⟨between, stepped, openRest⟩ := Option.bind_eq_some_iff.mp isOpen
      have counted := induction openRest
      rcases step?_cases stepped with
        ⟨rfl, rfl⟩ | ⟨rfl, rfl⟩ | ⟨notOpening, notClosing, rfl⟩
      · rw [List.count_cons_self, List.count_cons_of_ne different.symm]
        omega
      · rw [List.count_cons_self, List.count_cons_of_ne different]
        omega
      · rw [List.count_cons_of_ne notOpening, List.count_cons_of_ne notClosing]
        exact counted

theorem openBehind?_of_close? {depth : Nat} {text inside behind : List Char}
    (closed : close? opening closing depth text = some (inside, behind)) :
    openBehind? opening closing depth inside = some 0 := by
  induction text generalizing depth inside with
  | nil => cases closed
  | cons next rest induction =>
      have kept : ∀ {further : Nat}, step? opening closing depth next = some further →
          (close? opening closing further rest).map (prepend [next]) = some (inside, behind) →
            openBehind? opening closing depth inside = some 0 := by
        intro further stepped found
        obtain ⟨⟨shorter, same⟩, closedRest, parts⟩ := Option.map_eq_some_iff.mp found
        simp only [prepend, List.singleton_append, Prod.mk.injEq] at parts
        obtain ⟨rfl, rfl⟩ := parts
        rw [openBehind?_cons, stepped]
        exact induction closedRest
      by_cases isOpening : next = opening
      · subst isOpening
        rw [close?_opening] at closed
        exact kept (step?_opening depth) closed
      · by_cases isClosing : next = closing
        · subst isClosing
          cases depth with
          | zero =>
              rw [close?_closing_zero isOpening] at closed
              cases closed
              rfl
          | succ depth =>
              rw [close?_closing_succ isOpening] at closed
              exact kept (step?_closing isOpening depth) closed
        · rw [close?_cons_of_ne isOpening isClosing] at closed
          exact kept (step?_of_ne isOpening isClosing depth) closed

theorem balanced_of_close? {text inside behind : List Char}
    (closed : close? opening closing 0 text = some (inside, behind)) :
    Balanced opening closing inside :=
  (balanced_iff different).mpr (openBehind?_of_close? different closed)

theorem close?_append_right {text inside behind : List Char}
    (closed : close? opening closing 0 text = some (inside, behind)) (more : List Char) :
    close? opening closing 0 (text ++ more) = some (inside, behind ++ more) := by
  rw [append_of_close? closed, List.append_assoc, List.cons_append]
  exact close?_of_balanced different (balanced_of_close? different closed) (behind ++ more)

end

end ScriptRegistrar.Bracketed
