import Mathlib.Data.List.Forall2
import ScriptRegistrar.Proofs.Layout.Relaid
import ScriptRegistrar.Proofs.ParameterNesting
import ScriptRegistrar.Proofs.TypeNormalForm

/-!
# Types in two layouts

The normal form of a type, and the types of a parameter list, are the same for every layout.  The
scans of a parameter list remember one character, but ask only whether it belongs to an
identifier, which no blank does.  The head of a parameter keeps all blanks before the name but the
last, so two heads are layouts of one another only once a blank follows both.
-/

namespace ScriptRegistrar

open Text

namespace TypeText

theorem ignoresLayout_isReferenceSign : IgnoresLayout isReferenceSign :=
  .or (.eq_sign rfl) (.eq_sign rfl)

theorem dropQualifier_append_of_isBlankRun {blanks : List Char} (isRun : IsBlankRun blanks)
    (run rest : List Char) :
    dropQualifier run (blanks ++ rest) = closeRun run ++ (blanks ++ dropQualifier [] rest) := by
  obtain ⟨first, others, rfl, blank, othersBlank⟩ := isRun.exists_cons
  have keeps : dropQualifier [] (others ++ rest) = others ++ dropQualifier [] rest := by
    clear isRun
    induction others with
    | nil => rfl
    | cons next later induction =>
        obtain ⟨nextBlank, laterBlank⟩ := List.forall_mem_cons.mp othersBlank
        rw [List.cons_append, dropQualifier,
          if_neg (by simp [isIdentifierChar_of_isBlank nextBlank]), induction laterBlank]
        rfl
  rw [List.cons_append, dropQualifier, if_neg (by simp [isIdentifierChar_of_isBlank blank]), keeps]
  rfl

theorem dropQualifier_relaid {left right : List Char} (relaid : Relaid left right)
    (run : List Char) : Relaid (dropQualifier run left) (dropQualifier run right) := by
  induction relaid generalizing run with
  | nil => exact .refl _
  | character solid _ induction =>
      rw [dropQualifier, dropQualifier]
      split
      · exact induction _
      · exact (Relaid.refl _).append (.character solid (induction []))
  | blanks first second _ induction =>
      rw [dropQualifier_append_of_isBlankRun first, dropQualifier_append_of_isBlankRun second]
      exact (Relaid.refl _).append (.blanks first second (induction []))

theorem tighten_append_of_isBlankRun {run : List Char} (isRun : IsBlankRun run)
    (last : Option Char) (blankSeen : Bool) (rest : List Char) :
    tighten last blankSeen (run ++ rest) = tighten last true rest := by
  obtain ⟨first, others, rfl, blank, othersBlank⟩ := isRun.exists_cons
  rw [List.cons_append, tighten, if_pos blank]
  clear isRun
  induction others with
  | nil => rfl
  | cons next later induction =>
      obtain ⟨nextBlank, laterBlank⟩ := List.forall_mem_cons.mp othersBlank
      rw [List.cons_append, tighten, if_pos nextBlank, induction laterBlank]

theorem tighten_eq_of_relaid {left right : List Char} (relaid : Relaid left right)
    (last : Option Char) (blankSeen : Bool) :
    tighten last blankSeen left = tighten last blankSeen right := by
  induction relaid generalizing last blankSeen with
  | nil => rfl
  | character _ _ induction => simp only [tighten, induction]
  | blanks first second _ induction =>
      rw [tighten_append_of_isBlankRun first, tighten_append_of_isBlankRun second, induction]

/-- The layout of a type does not show in its normal form. -/
theorem normalForm_eq_of_relaid {left right : List Char} (relaid : Relaid left right) :
    normalForm left = normalForm right :=
  tighten_eq_of_relaid
    (dropQualifier_relaid (relaid.filter ignoresLayout_isReferenceSign.not) []) none false

end TypeText

namespace ParameterList

namespace Nesting

/-- Whether two nestings differ at most in the character before, and not in whether it belongs to
an identifier. -/
structure Alike (left right : Nesting) : Prop where
  brackets : left.brackets = right.brackets
  angles : left.angles = right.angles
  inDefault : left.inDefault = right.inDefault
  identifier : left.previous.any isIdentifierChar = right.previous.any isIdentifierChar

namespace Alike

theorem refl (nesting : Nesting) : Alike nesting nesting :=
  ⟨rfl, rfl, rfl, rfl⟩

variable {left right : Nesting} (alike : Alike left right)

include alike

theorem isTop : left.isTop = right.isTop := by
  rw [Nesting.isTop, Nesting.isTop, alike.brackets, alike.angles]

/-- A character is all that is remembered behind it, besides what alike nestings agree in. -/
theorem step_eq (character : Char) : left.step character = right.step character := by
  have opens : left.opensTemplate = right.opensTemplate := by
    rw [opensTemplate, opensTemplate, alike.inDefault, alike.identifier]
  unfold step
  rw [opens, alike.isTop, alike.brackets, alike.angles, alike.inDefault]

end Alike

theorem isPlain_of_isBlank {character : Char} (blank : isBlank character = true) :
    isPlain character = true := by
  rw [isPlain, Bool.not_eq_true', List.contains_eq_mem, decide_eq_false_iff_not]
  intro bracket
  have solid : IsSolid ['(', '[', '\x7b', ')', ']', '\x7d', '<', '>', '='] := by decide
  rw [solid character bracket] at blank
  exact Bool.noConfusion blank

theorem steps_of_isBlankRun (nesting : Nesting) {run : List Char} (isRun : IsBlankRun run) :
    ∃ blank, isBlank blank = true ∧
      nesting.steps run = { nesting with previous := some blank } := by
  obtain ⟨front, last, rfl, blank⟩ := isRun.exists_concat
  refine ⟨last, blank, ?_⟩
  rw [nesting.steps_of_isPlain fun character member =>
    isPlain_of_isBlank (isRun.blank character member), List.getLast?_concat, Option.some_or]

theorem Alike.steps {left right : Nesting} (alike : Alike left right) {run other : List Char}
    (first : IsBlankRun run) (second : IsBlankRun other) :
    Alike (left.steps run) (right.steps other) := by
  obtain ⟨blank, isBlank, behindRun⟩ := left.steps_of_isBlankRun first
  obtain ⟨otherBlank, isOtherBlank, behindOther⟩ := right.steps_of_isBlankRun second
  rw [behindRun, behindOther]
  refine ⟨alike.brackets, alike.angles, alike.inDefault, ?_⟩
  rw [Option.any_some, Option.any_some, isIdentifierChar_of_isBlank isBlank,
    isIdentifierChar_of_isBlank isOtherBlank]

theorem hides_of_isBlankRun {sign : Char} (solid : isBlank sign = false) (nesting : Nesting)
    {run : List Char} (isRun : IsBlankRun run) : nesting.Hides sign run :=
  hides_of_not_mem (isRun.not_mem solid)

theorem hides_singleton {sign next : Char} {nesting : Nesting}
    (passes : ¬ (next = sign && nesting.isTop) = true) : nesting.Hides sign [next] := by
  refine ⟨?_, trivial⟩
  rintro rfl
  simpa using passes

end Nesting

theorem forall₂_prependFirst {left right : List Char} {pieces others : List (List Char)}
    (relaid : Relaid left right) (related : List.Forall₂ Relaid pieces others) :
    List.Forall₂ Relaid (prependFirst left pieces) (prependFirst right others) := by
  cases related with
  | nil => exact .cons relaid .nil
  | cons first rest => exact .cons (relaid.append first) rest

section

variable {sign : Char} (solid : isBlank sign = false) {left right : List Char}
  (relaid : Relaid left right) {nesting otherNesting : Nesting}

include solid relaid

theorem splitFrom_relaid (alike : nesting.Alike otherNesting) :
    List.Forall₂ Relaid (splitFrom sign nesting left) (splitFrom sign otherNesting right) := by
  induction relaid generalizing nesting otherNesting with
  | nil => exact .cons .nil .nil
  | @character next left right nextSolid rest induction =>
      by_cases splits : (next = sign && nesting.isTop) = true
      · rw [splitFrom, splitFrom, if_pos splits, if_pos (alike.isTop ▸ splits)]
        exact .cons .nil (induction (.refl _))
      · have otherwise : ¬ (next = sign && otherNesting.isTop) = true := alike.isTop ▸ splits
        have further := @splitFrom_append _ _ _ left (Nesting.hides_singleton splits)
        have otherFurther := @splitFrom_append _ _ _ right (Nesting.hides_singleton otherwise)
        rw [List.singleton_append] at further otherFurther
        rw [further, otherFurther]
        apply forall₂_prependFirst (.singleton nextSolid)
        apply induction
        change (nesting.step next).Alike (otherNesting.step next)
        rw [alike.step_eq next]
        exact .refl _
  | blanks first second _ induction =>
      rw [splitFrom_append (Nesting.hides_of_isBlankRun solid _ first),
        splitFrom_append (Nesting.hides_of_isBlankRun solid _ second)]
      exact forall₂_prependFirst (.of_runs first second) (induction (alike.steps first second))

theorem beforeTop_relaid (alike : nesting.Alike otherNesting) :
    Relaid (beforeTop sign nesting left) (beforeTop sign otherNesting right) := by
  induction relaid generalizing nesting otherNesting with
  | nil => exact .nil
  | character nextSolid rest induction =>
      rw [beforeTop, beforeTop, alike.isTop, alike.step_eq]
      split
      · exact .nil
      · exact .character nextSolid (induction (.refl _))
  | blanks first second _ induction =>
      rw [beforeTop_append (Nesting.hides_of_isBlankRun solid _ first),
        beforeTop_append (Nesting.hides_of_isBlankRun solid _ second)]
      exact .blanks first second (induction (alike.steps first second))

end

theorem Nesting.isTop_step_of_isBlank (nesting : Nesting) {character : Char}
    (blank : isBlank character = true) : (nesting.step character).isTop = nesting.isTop := by
  rw [step_of_isPlain nesting (isPlain_of_isBlank blank)]
  rfl

/-- A run of blanks outside all brackets is split before its last blank, if no later one is. -/
theorem lastTopBlank?_append_blanks (nesting : Nesting) {front rest : List Char} {last : Char}
    (isRun : IsBlankRun (front ++ [last])) :
    lastTopBlank? nesting (front ++ last :: rest) =
      match lastTopBlank? (nesting.steps (front ++ [last])) rest with
      | some (before, behind) => some (front ++ last :: before, behind)
      | none => if nesting.isTop then some (front, last :: rest) else none := by
  induction front generalizing nesting with
  | nil =>
      have blank : isBlank last = true := isRun.blank last (by simp)
      rw [List.nil_append, List.nil_append, lastTopBlank?, blank]
      rfl
  | cons first others induction =>
      have blank : isBlank first = true := isRun.blank first (by simp)
      have further := induction (nesting.step first)
        ⟨by simp, fun character member => isRun.blank character (List.mem_cons_of_mem _ member)⟩
      rw [nesting.isTop_step_of_isBlank blank, ← Nesting.steps_cons] at further
      rw [List.cons_append, List.cons_append, lastTopBlank?, further, blank]
      cases lastTopBlank? (nesting.steps (first :: (others ++ [last]))) rest with
      | some parts => rfl
      | none => cases nesting.isTop <;> rfl

/-- What two layouts are split into before their last blank outside all brackets: heads that are
layouts of one another once a blank follows, and tails that are so as they stand. -/
def HeadsAndTails (left right : List Char × List Char) : Prop :=
  Relaid (left.1 ++ [' ']) (right.1 ++ [' ']) ∧ Relaid left.2 right.2

theorem lastTopBlank?_relaid {left right : List Char} (relaid : Relaid left right)
    {nesting otherNesting : Nesting} (alike : nesting.Alike otherNesting) :
    Option.Rel HeadsAndTails (lastTopBlank? nesting left) (lastTopBlank? otherNesting right) := by
  induction relaid generalizing nesting otherNesting with
  | nil => exact .none
  | @character next left right solid rest induction =>
      rw [lastTopBlank?, lastTopBlank?, ← alike.step_eq next, solid]
      have further := induction (.refl (nesting.step next))
      generalize lastTopBlank? (nesting.step next) left = parts at further ⊢
      generalize lastTopBlank? (nesting.step next) right = otherParts at further ⊢
      cases further with
      | some related => exact .some ⟨.character solid related.1, related.2⟩
      | none => exact .none
  | @blanks run other left right first second rest induction =>
      have further := induction (alike.steps first second)
      obtain ⟨front, last, rfl, blank⟩ := first.exists_concat
      obtain ⟨otherFront, otherLast, rfl, otherBlank⟩ := second.exists_concat
      rw [List.append_assoc, List.append_assoc, List.singleton_append, List.singleton_append,
        lastTopBlank?_append_blanks nesting first, lastTopBlank?_append_blanks otherNesting second,
        ← alike.isTop]
      generalize lastTopBlank? (nesting.steps (front ++ [last])) left = parts at further ⊢
      generalize lastTopBlank? (otherNesting.steps (otherFront ++ [otherLast])) right =
        otherParts at further ⊢
      cases further with
      | @some parts otherParts related =>
          have heads := Relaid.blanks first second related.1
          refine .some ⟨?_, related.2⟩
          simpa using heads
      | none =>
          cases nesting.isTop with
          | true =>
              exact .some ⟨.of_runs first.front_append_space second.front_append_space,
                .blanks (isBlankRun_singleton blank) (isBlankRun_singleton otherBlank) rest⟩
          | false => exact .none

theorem withoutArray_relaid {left right : List Char} (relaid : Relaid left right) :
    Relaid (withoutArray left) (withoutArray right) := by
  have ends : ∀ name : List Char, name.getLast? = some ']' ↔
      name.getLast?.any (fun character => decide (character = ']')) = true := by
    intro name
    cases name.getLast? <;> simp
  have same := relaid.getLast?_any (@IgnoresLayout.eq_sign ']' rfl)
  unfold withoutArray
  simp only [ends, same]
  split
  · exact relaid.takeWhile (@IgnoresLayout.ne_sign '[' rfl)
  · exact relaid

theorem namesParameter_eq_of_relaid {left right : List Char} (relaid : Relaid left right) :
    namesParameter left = namesParameter right := by
  have names := withoutArray_relaid (relaid.dropWhile TypeText.ignoresLayout_isReferenceSign)
  apply @Relaid.test_eq _ _ names fun name =>
    isIdentifier name && !builtinTypeWords.contains name && name != TypeText.qualifier
  intro name holds character member
  rw [Bool.and_eq_true, Bool.and_eq_true] at holds
  exact isBlank_of_isIdentifierChar (isIdentifierChar_of_mem holds.1.1 member)

theorem normalForm_typePart_eq_of_relaid {left right : List Char} (relaid : Relaid left right) :
    TypeText.normalForm (typePart left) = TypeText.normalForm (typePart right) := by
  have whole := TypeText.normalForm_eq_of_relaid relaid
  have split := lastTopBlank?_relaid relaid (.refl {})
  unfold typePart
  generalize lastTopBlank? {} left = parts at split ⊢
  generalize lastTopBlank? {} right = otherParts at split ⊢
  cases split with
  | none => exact whole
  | @some parts otherParts related =>
      obtain ⟨head, tail⟩ := parts
      obtain ⟨otherHead, otherTail⟩ := otherParts
      have heads := TypeText.normalForm_eq_of_relaid related.1
      rw [TypeText.normalForm_append_blank _ rfl, TypeText.normalForm_append_blank _ rfl] at heads
      have names := namesParameter_eq_of_relaid related.2.trim
      simp only at names ⊢
      rw [names, heads]
      split
      · exact heads
      · exact whole

theorem parameterType?_eq_of_relaid {left right : List Char} (relaid : Relaid left right) :
    parameterType? left = parameterType? right := by
  have declared := (@beforeTop_relaid '=' rfl _ _ relaid _ _ (.refl {})).trim
  unfold parameterType?
  generalize trim (beforeTop '=' {} left) = declaration at declared ⊢
  generalize trim (beforeTop '=' {} right) = otherDeclaration at declared ⊢
  cases declaration with
  | nil => rw [declared.eq_nil_iff.mp rfl]
  | cons first rest =>
      cases otherDeclaration with
      | nil => cases declared.eq_nil_iff.mpr rfl
      | cons otherFirst otherRest =>
          exact congrArg some (normalForm_typePart_eq_of_relaid declared)

theorem filterMap_parameterType?_eq {pieces others : List (List Char)}
    (related : List.Forall₂ Relaid pieces others) :
    pieces.filterMap parameterType? = others.filterMap parameterType? := by
  induction related with
  | nil => rfl
  | cons first _ induction =>
      rw [List.filterMap_cons, List.filterMap_cons, parameterType?_eq_of_relaid first, induction]

/-- A parameter list declares the same types in every layout. -/
theorem types_eq_of_relaid {left right : List Char} (relaid : Relaid left right) :
    types left = types right := by
  have inside := relaid.trim
  have noParameters := @Relaid.test_eq _ _ inside
    (fun text => text.isEmpty || decide (text = "void".toList)) (by
      intro text holds
      rw [Bool.or_eq_true, List.isEmpty_iff, decide_eq_true_eq] at holds
      rcases holds with rfl | rfl <;> decide)
  have pieces := @splitFrom_relaid ',' rfl _ _ inside _ _ (.refl {})
  unfold types
  simp only [noParameters, splitTop, filterMap_parameterType?_eq pieces]

@[simp] theorem types_trim (text : List Char) : types (trim text) = types text := by
  rw [types, types, trim_eq_self (isTrimmed_trim text)]

/-- A parameter list declares what it does without the blanks at its ends and with a space for every
other run of blanks. -/
@[simp] theorem types_trim_squeeze (text : List Char) :
    types (trim (squeeze text)) = types text := by
  simp [types_eq_of_relaid (relaid_squeeze text)]

/-- Parameter lists that agree once they are trimmed and every run of blanks in them is replaced by
a space declare the same types. -/
theorem parse_eq_of_trim_squeeze {left right : String}
    (same : trim (squeeze left.toList) = trim (squeeze right.toList)) :
    parse left = parse right := by
  rw [parse, parse, ← types_trim_squeeze left.toList, same, types_trim_squeeze]

/-- A list on one line and on several, with blanks of several kinds in its types and around them. -/
theorem parse_eq_of_trim_squeeze_hit :
    let left := "const Hit &hit , Map<int , B (4)> m = f(1 , 2) , unsigned int"
    let right := "\r\n\tconst\u00a0\u3000Hit\n&hit\t,  Map<int\n, B\t(4)> m\u2028= f(1\t, 2)\n" ++
      ", unsigned\r\n\tint\n"
    trim (squeeze left.toList) = trim (squeeze right.toList) ∧ parse left = parse right ∧
      parse left = ["Hit", "Map<int,B(4)>", "unsigned int"] := by
  intro left right
  have same : trim (squeeze left.toList) = trim (squeeze right.toList) := by decide +kernel
  exact ⟨same, parse_eq_of_trim_squeeze same, by decide +kernel⟩

end ParameterList

end ScriptRegistrar
