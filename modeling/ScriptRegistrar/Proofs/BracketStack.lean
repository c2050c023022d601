import ScriptRegistrar.Proofs.NestedText
import ScriptRegistrar.Proofs.ParameterPieces

/-!
# Splitting and joining parameter lists

Whatever a text is split into gives the text again once the separators are put back.  The other
way round, the pieces that commas were put between come back if no comma of theirs stands outside
all brackets.  What stands in brackets is told by a stack of them, and a scan has no stack: it
counts round, square and curly brackets together and angle brackets by themselves.  As long as
every bracket closes the one on top, no default value begins, and there are no more brackets than
can be counted, the two counts are those of the stack.
-/

namespace ScriptRegistrar.ParameterList

open Text

theorem intercalate_prependFirst (separator next : Char) {pieces : List (List Char)}
    (nonempty : pieces ≠ []) :
    [separator].intercalate (prependFirst [next] pieces) =
      next :: [separator].intercalate pieces := by
  match pieces, nonempty with
  | [piece], _ => simp [prependFirst]
  | piece :: second :: others, _ => simp [prependFirst, List.intercalate_cons_cons]

@[simp] theorem intercalate_splitFrom (separator : Char) (nesting : Nesting) (text : List Char) :
    [separator].intercalate (splitFrom separator nesting text) = text := by
  induction text generalizing nesting with
  | nil => simp [splitFrom]
  | cons next rest induction =>
      rw [splitFrom_cons]
      split
      · rename_i separates
        obtain ⟨piece, others, pieces⟩ :=
          List.exists_cons_of_ne_nil (splitFrom_ne_nil separator {} rest)
        have same : next = separator := by
          rw [Bool.and_eq_true, decide_eq_true_eq] at separates
          exact separates.1
        rw [pieces, List.intercalate_cons_cons, ← pieces, induction, same]
        rfl
      · rw [intercalate_prependFirst _ _ (splitFrom_ne_nil _ _ _), induction]

/-- The brackets of types: angle brackets are among them. -/
def typeBracketPairs : List (Char × Char) :=
  ('<', '>') :: bracketPairs

/-- The brackets open behind a character, the innermost one first, if `opened` are open in front of
it; `none` if the character closes another one than the innermost. -/
def stack? (opened : List Char) (next : Char) : Option (List Char) :=
  match typeBracketPairs.find? (·.2 = next) with
  | some pair => if opened.head? = some pair.1 then some opened.tail else none
  | none => if typeBracketPairs.any (·.1 = next) then some (next :: opened) else some opened

/-- The brackets open behind a text; `none` if one of its brackets closes another than the innermost. -/
def stackBehind? (opened text : List Char) : Option (List Char) :=
  text.foldlM stack? opened

/-- Whether the brackets of a text are properly nested, all of its commas stand in some of them, and
no default value begins in it. -/
structure IsNestedPart (part : List Char) : Prop where
  nested : stackBehind? [] part = some []
  inside : ∀ index < part.length, part[index]? = some ',' →
    stackBehind? [] (part.take index) ≠ some []
  noDefault : '=' ∉ part

instance (part : List Char) : Decidable (IsNestedPart part) :=
  decidable_of_iff (stackBehind? [] part = some [] ∧
      (∀ index < part.length, part[index]? = some ',' →
        stackBehind? [] (part.take index) ≠ some []) ∧ '=' ∉ part)
    ⟨fun ⟨nested, inside, noDefault⟩ => ⟨nested, inside, noDefault⟩,
      fun isPart => ⟨isPart.nested, isPart.inside, isPart.noDefault⟩⟩

@[simp] theorem stackBehind?_cons (opened : List Char) (next : Char) (rest : List Char) :
    stackBehind? opened (next :: rest) = (stack? opened next).bind (stackBehind? · rest) :=
  List.foldlM_cons

/-- A bracket is put on the stack or takes its own kind off it, and nothing else changes it. -/
theorem stack?_eq_some {opened behind : List Char} {next : Char}
    (reads : stack? opened next = some behind) :
    (∃ closing, (next, closing) ∈ typeBracketPairs ∧ behind = next :: opened) ∨
      (∃ opening, (opening, next) ∈ typeBracketPairs ∧ opened = opening :: behind) ∨
      isUnbracketed next = true ∧ behind = opened := by
  unfold stack? at reads
  split at reads
  · rename_i pair found
    have same : pair.2 = next := by simpa using List.find?_some found
    rw [Option.ite_none_right_eq_some, Option.some.injEq] at reads
    obtain ⟨top, rfl⟩ := reads
    obtain ⟨others, rfl⟩ := List.head?_eq_some_iff.mp top
    exact Or.inr (Or.inl ⟨pair.1, same ▸ List.mem_of_find?_eq_some found, rfl⟩)
  · rename_i notClosing
    split at reads
    · rename_i opens
      cases reads
      obtain ⟨pair, listed, same⟩ := List.any_eq_true.mp opens
      have same : pair.1 = next := by simpa using same
      exact Or.inl ⟨pair.2, same ▸ listed, rfl⟩
    · rename_i notOpening
      cases reads
      refine Or.inr (Or.inr ⟨?_, rfl⟩)
      simp only [typeBracketPairs, bracketPairs, List.find?_eq_none, List.forall_mem_cons,
        List.any_cons, List.any_nil, Bool.or_eq_true, decide_eq_true_eq] at notClosing notOpening
      simp only [isUnbracketed, Bool.not_eq_true', List.contains_eq_mem, decide_eq_false_iff_not,
        List.mem_cons, List.not_mem_nil, or_false]
      grind

namespace Nesting

/-- Whether the counts of a scan are those of a stack of brackets, and the scan is in a type. -/
structure Counts (opened : List Char) (nesting : Nesting) : Prop where
  brackets : nesting.brackets.toNat = opened.countP (· ≠ '<')
  angles : nesting.angles.toNat = opened.countP (· = '<')
  inType : nesting.inDefault = false

theorem counts_start : Counts [] {} :=
  ⟨rfl, rfl, rfl⟩

section

variable {opened behind : List Char} {nesting : Nesting} (counts : Counts opened nesting)

include counts

theorem isTop_iff_of_counts : nesting.isTop = true ↔ opened = [] := by
  have both := List.length_eq_countP_add_countP (fun opening => decide (opening = '<'))
    (l := opened)
  simp only [decide_eq_true_eq, ← ne_eq] at both
  rw [isTop, Bool.and_eq_true, decide_eq_true_eq, decide_eq_true_eq, ← UInt32.toNat_inj,
    ← UInt32.toNat_inj, counts.brackets, counts.angles, UInt32.toNat_zero,
    ← List.length_eq_zero_iff, both]
  omega

theorem counts_step {next : Char} {rest : List Char} (room : nesting.HasRoom (next :: rest))
    (reads : stack? opened next = some behind) (notEquals : next ≠ '=') :
    Counts behind (nesting.step next) := by
  have notAngle : ∀ pair ∈ bracketPairs, pair.1 ≠ '<' := by decide
  obtain ⟨brackets, angles, inType⟩ := counts
  rcases stack?_eq_some reads with ⟨closing, pair, rfl⟩ | ⟨opening, pair, rfl⟩ | ⟨unbracketed, rfl⟩
  · rcases List.mem_cons.mp pair with isAngle | others
    · cases isAngle
      have counted := toNat_oneMore (room.angles_of_cons rfl)
      rw [step_opening_angle inType]
      exact ⟨by simpa using brackets, by simpa [angles] using counted, inType⟩
    · have different := notAngle _ others
      have counted := toNat_oneMore (room.brackets_of_cons (opensBracket_of_mem others))
      rw [step_opening others]
      exact ⟨by simpa [different, brackets] using counted, by simpa [different] using angles, inType⟩
  · rcases List.mem_cons.mp pair with isAngle | others
    · cases isAngle
      rw [step_closing_angle]
      exact ⟨by simpa using brackets, by simp [angles], inType⟩
    · have different := notAngle _ others
      rw [step_closing others]
      exact ⟨by simp [brackets, different], by simpa [different] using angles, inType⟩
  · rw [step_of_isUnbracketed unbracketed (Or.inr (Or.inr notEquals))]
    exact ⟨brackets, angles, inType⟩

end

section

variable {opened behind text : List Char} {nesting : Nesting} (room : nesting.HasRoom text)
  (reads : stackBehind? opened text = some behind) (noDefault : '=' ∉ text)

include room reads noDefault

theorem counts_steps (counts : Counts opened nesting) : Counts behind (nesting.steps text) := by
  induction text generalizing opened nesting with
  | nil =>
      cases reads
      exact counts
  | cons next rest induction =>
      rw [stackBehind?_cons, Option.bind_eq_some_iff] at reads
      obtain ⟨middle, first, others⟩ := reads
      rw [List.mem_cons, not_or] at noDefault
      exact induction room.step_of_cons others noDefault.2
        (counts_step counts room first (Ne.symm noDefault.1))

theorem hides_of_stackBehind {sign : Char} (counts : Counts opened nesting)
    (inside : ∀ index < text.length, text[index]? = some sign →
      stackBehind? opened (text.take index) ≠ some []) : nesting.Hides sign text := by
  induction text generalizing opened nesting with
  | nil => trivial
  | cons next rest induction =>
      rw [stackBehind?_cons, Option.bind_eq_some_iff] at reads
      obtain ⟨middle, first, others⟩ := reads
      rw [List.mem_cons, not_or] at noDefault
      refine ⟨fun same => ?_, induction room.step_of_cons others noDefault.2
        (counts_step counts room first (Ne.symm noDefault.1)) fun index bound found => ?_⟩
      · have onStack : opened ≠ [] := by
          rintro rfl
          exact inside 0 (by simp) (by simp [same]) rfl
        rw [← Bool.not_eq_true, isTop_iff_of_counts counts]
        exact onStack
      · have further := inside (index + 1) (by simpa using bound) (by simpa using found)
        rwa [List.take_succ_cons, stackBehind?_cons, first] at further

end

end Nesting

theorem IsNestedPart.isPiece {part : List Char} (isPart : IsNestedPart part)
    (few : HasFewBrackets part) : IsPiece part where
  hides := Nesting.hides_of_stackBehind (Nesting.hasRoom_start few) isPart.nested isPart.noDefault
    Nesting.counts_start isPart.inside
  closed := (Nesting.isTop_iff_of_counts (Nesting.counts_steps (Nesting.hasRoom_start few)
    isPart.nested isPart.noDefault Nesting.counts_start)).mpr rfl

/-- What a text is split into at its commas joins to the text.  Parts in which all brackets are
nested and all commas bracketed are what their join is split into, if it opens fewer brackets than
2^32. -/
theorem splitTop_inverts_join :
    (∀ text, commaSeparated (splitTop ',' text) = text) ∧
      ∀ parts, parts ≠ [] → (∀ part ∈ parts, IsNestedPart part) →
        HasFewBrackets (commaSeparated parts) → splitTop ',' (commaSeparated parts) = parts := by
  constructor
  · exact intercalate_splitFrom ',' {}
  · intro parts nonempty nested few
    have arePieces : ∀ part ∈ parts, IsPiece part := fun part member =>
      (nested part member).isPiece (hasFewBrackets_of_mem few part member)
    refine splitTop_commaSeparated nonempty (fun part member => (arePieces part member).hides) ?_
    exact fun part member => (arePieces part (List.dropLast_subset _ member)).closed

/-- Commas in brackets of all four kinds, an empty part, and a text whose brackets are not nested. -/
theorem splitTop_inverts_join_map :
    let text := ")é ,a<b, c=1<2,,".toList
    let parts := ["Map<K, (A, B[2, 3])> é".toList, [], " f(\x7b1, 2\x7d) n".toList]
    parts ≠ [] ∧ (∀ part ∈ parts, IsNestedPart part) ∧
      commaSeparated (splitTop ',' text) = text ∧ splitTop ',' (commaSeparated parts) = parts := by
  intro text parts
  have nonempty : parts ≠ [] := by decide
  have nested : ∀ part ∈ parts, IsNestedPart part := by decide
  obtain ⟨joins, splits⟩ := splitTop_inverts_join
  exact ⟨nonempty, nested, joins text, splits parts nonempty nested (by decide)⟩

end ScriptRegistrar.ParameterList
