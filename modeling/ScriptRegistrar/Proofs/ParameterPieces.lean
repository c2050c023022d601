import ScriptRegistrar.Proofs.BracketCounts
import ScriptRegistrar.Proofs.Layout.ParameterTypes
import ScriptRegistrar.Proofs.Text.Lines

/-!
# The pieces of a parameter list

Pieces that have no comma outside of their brackets, and close all of them, are read one by one
from a text that puts commas between them.  A parameter list is trimmed before it is split.  That
takes blanks from its first and from its last piece, where they are ignored anyway.
-/

namespace ScriptRegistrar.ParameterList

open Text

def commaSeparated (pieces : List (List Char)) : List Char :=
  [','].intercalate pieces

@[simp] theorem commaSeparated_cons_cons (first next : List Char) (others : List (List Char)) :
    commaSeparated (first :: next :: others) = first ++ ',' :: commaSeparated (next :: others) := by
  simp [commaSeparated, List.intercalate_cons_cons]

theorem commaSeparated_cons (first : List Char) (others : List (List Char)) :
    commaSeparated (first :: others) = first ++ others.flatMap (',' :: ·) := by
  induction others generalizing first with
  | nil => simp [commaSeparated]
  | cons next later induction => simp [induction]

theorem hasFewBrackets_of_mem {pieces : List (List Char)}
    (few : HasFewBrackets (commaSeparated pieces)) : ∀ piece ∈ pieces, HasFewBrackets piece := by
  cases pieces with
  | nil => exact List.forall_mem_nil _
  | cons first others =>
      rw [commaSeparated_cons] at few
      obtain ⟨fewFirst, fewOthers⟩ := few.of_append
      refine List.forall_mem_cons.mpr ⟨fewFirst, fun piece listed => ?_⟩
      obtain ⟨left, right, rfl⟩ := List.append_of_mem listed
      rw [List.flatMap_append, List.flatMap_cons] at fewOthers
      exact fewOthers.of_append.2.of_append.1.of_cons

/-- A text that splitting leaves whole and behind which a comma separates. -/
structure IsPiece (text : List Char) : Prop where
  hides : Nesting.Hides ',' {} text
  closed : (Nesting.steps {} text).isTop = true

section

variable {pieces : List (List Char)} (nonempty : pieces ≠ [])

include nonempty

/-- Splitting finds all commas between pieces that have none outside of their brackets, if every
piece but the last closes its brackets. -/
theorem splitTop_commaSeparated (hide : ∀ piece ∈ pieces, Nesting.Hides ',' {} piece)
    (close : ∀ piece ∈ pieces.dropLast, (Nesting.steps {} piece).isTop = true) :
    splitTop ',' (commaSeparated pieces) = pieces := by
  induction pieces with
  | nil => exact (nonempty rfl).elim
  | cons piece others induction =>
      obtain ⟨hides, othersHide⟩ := List.forall_mem_cons.mp hide
      cases others with
      | nil =>
          have whole := @splitFrom_append _ _ _ [] hides
          simpa [commaSeparated, splitTop, splitFrom, prependFirst] using whole
      | cons next later =>
          obtain ⟨closed, othersClose⟩ := List.forall_mem_cons.mp close
          have further : splitFrom ',' {} (commaSeparated (next :: later)) = next :: later :=
            induction (by simp) othersHide othersClose
          have separates : splitFrom ',' (Nesting.steps {} piece)
              (',' :: commaSeparated (next :: later)) = [] :: next :: later := by
            rw [splitFrom, closed, further]
            rfl
          rw [splitTop, commaSeparated_cons_cons, splitFrom_append hides, separates]
          simp [prependFirst]

omit nonempty in
theorem length_splitFrom_append (nesting : Nesting) {piece : List Char}
    (hides : nesting.Hides ',' piece) (rest : List Char) :
    (splitFrom ',' nesting (piece ++ ',' :: rest)).length =
      if (nesting.steps piece).isTop then (splitFrom ',' {} rest).length + 1
      else (splitFrom ',' ((nesting.steps piece).step ',') rest).length := by
  rw [splitFrom_append hides, length_prependFirst (splitFrom_ne_nil _ _ _), splitFrom_cons]
  cases closed : (nesting.steps piece).isTop with
  | true => simp
  | false => simp [length_prependFirst (splitFrom_ne_nil _ _ _)]

section

variable (hide : ∀ piece ∈ pieces, ∀ nesting : Nesting,
  nesting.HasRoom piece → nesting.Hides ',' piece)

include hide

theorem length_splitFrom_le {nesting : Nesting}
    (room : nesting.HasRoom (commaSeparated pieces)) :
    (splitFrom ',' nesting (commaSeparated pieces)).length ≤ pieces.length := by
  induction pieces generalizing nesting with
  | nil => exact (nonempty rfl).elim
  | cons piece others induction =>
      obtain ⟨hides, othersHide⟩ := List.forall_mem_cons.mp hide
      cases others with
      | nil =>
          have room : nesting.HasRoom piece := by simpa [commaSeparated] using room
          have whole := @splitFrom_append _ _ _ [] (hides nesting room)
          simp only [List.append_nil, splitFrom, prependFirst] at whole
          simp [commaSeparated, whole]
      | cons next later =>
          rw [commaSeparated_cons_cons] at room ⊢
          have roomBehind := room.steps_of_append.step_of_cons
          have roomAtStart := Nesting.hasRoom_start roomBehind.hasFewBrackets
          rw [length_splitFrom_append nesting (hides nesting room.left_of_append)]
          split
          · exact Nat.succ_le_succ (induction (by simp) othersHide roomAtStart)
          · exact Nat.le_succ_of_le (induction (by simp) othersHide roomBehind)

/-- A piece that leaves a bracket open takes the next piece in. -/
theorem length_splitTop_lt (few : HasFewBrackets (commaSeparated pieces)) {unclosed : List Char}
    (member : unclosed ∈ pieces.dropLast)
    (opened : (Nesting.steps {} unclosed).isTop = false) :
    (splitTop ',' (commaSeparated pieces)).length < pieces.length := by
  induction pieces with
  | nil => exact (nonempty rfl).elim
  | cons piece others induction =>
      obtain ⟨hides, othersHide⟩ := List.forall_mem_cons.mp hide
      cases others with
      | nil => cases member
      | cons next later =>
          rw [commaSeparated_cons_cons] at few
          have room := Nesting.hasRoom_start few
          have roomBehind := room.steps_of_append.step_of_cons
          rw [splitTop, commaSeparated_cons_cons,
            length_splitFrom_append {} (hides {} room.left_of_append)]
          split
          · rename_i closed
            rcases List.mem_cons.mp member with rfl | further
            · rw [opened] at closed
              exact Bool.noConfusion closed
            · exact Nat.succ_lt_succ
                (induction (by simp) othersHide roomBehind.hasFewBrackets further)
          · exact Nat.lt_succ_of_le (length_splitFrom_le (by simp) othersHide roomBehind)

end

end

section

variable {left right : Nesting} (alike : left.Alike right)

include alike

theorem splitFrom_eq_of_alike (separator : Char) (text : List Char) :
    splitFrom separator left text = splitFrom separator right text := by
  cases text with
  | nil => rfl
  | cons next rest => rw [splitFrom, splitFrom, alike.isTop, alike.step_eq]

theorem beforeTop_eq_of_alike (sign : Char) (text : List Char) :
    beforeTop sign left text = beforeTop sign right text := by
  cases text with
  | nil => rfl
  | cons next rest => rw [beforeTop, beforeTop, alike.isTop, alike.step_eq]

end

theorem Nesting.alike_steps_of_blanks {blanks : List Char}
    (blank : ∀ character ∈ blanks, isBlank character = true) : (steps {} blanks).Alike {} := by
  by_cases nonempty : blanks = []
  · rw [nonempty]
    exact .refl _
  · obtain ⟨last, lastBlank, leads⟩ := steps_of_isBlankRun {} ⟨nonempty, blank⟩
    rw [leads]
    exact ⟨rfl, rfl, rfl, isIdentifierChar_of_isBlank lastBlank⟩

theorem not_mem_of_blanks {blanks : List Char}
    (blank : ∀ character ∈ blanks, isBlank character = true) {sign : Char}
    (solid : isBlank sign = false) : sign ∉ blanks := by
  intro member
  rw [blank sign member] at solid
  exact Bool.noConfusion solid

/-- What does not have the separator goes into the last piece. -/
theorem splitFrom_append_of_not_mem {separator : Char} {behind : List Char}
    (absent : separator ∉ behind) (nesting : Nesting) (text : List Char) :
    ∃ front last, splitFrom separator nesting text = front ++ [last] ∧
      splitFrom separator nesting (text ++ behind) = front ++ [last ++ behind] := by
  induction text generalizing nesting with
  | nil =>
      have whole := @splitFrom_append separator nesting behind [] (Nesting.hides_of_not_mem absent)
      exact ⟨[], [], rfl, by simpa [splitFrom, prependFirst] using whole⟩
  | cons next rest induction =>
      rw [List.cons_append, splitFrom, splitFrom]
      split
      · obtain ⟨front, last, split, splitOn⟩ := induction {}
        exact ⟨[] :: front, last, by rw [split]; rfl, by rw [splitOn]; rfl⟩
      · obtain ⟨front, last, split, splitOn⟩ := induction (nesting.step next)
        rw [split, splitOn]
        cases front with
        | nil => exact ⟨[], next :: last, rfl, rfl⟩
        | cons first others => exact ⟨(next :: first) :: others, last, rfl, rfl⟩

theorem beforeTop_append_of_not_mem {sign : Char} {behind : List Char} (absent : sign ∉ behind)
    (nesting : Nesting) (text : List Char) :
    ∃ rest, rest ⊆ behind ∧
      beforeTop sign nesting (text ++ behind) = beforeTop sign nesting text ++ rest := by
  induction text generalizing nesting with
  | nil => exact ⟨behind, by simp, beforeTop_of_not_mem absent⟩
  | cons next rest induction =>
      rw [List.cons_append, beforeTop, beforeTop]
      split
      · exact ⟨[], by simp, rfl⟩
      · obtain ⟨kept, fromBehind, reads⟩ := induction (nesting.step next)
        exact ⟨kept, fromBehind, by rw [reads]; rfl⟩

section

variable {before behind : List Char}
  (blankBefore : ∀ character ∈ before, isBlank character = true)
  (blankBehind : ∀ character ∈ behind, isBlank character = true)

include blankBefore blankBehind

theorem parameterType?_between (text : List Char) :
    parameterType? (before ++ (text ++ behind)) = parameterType? text := by
  obtain ⟨rest, fromBehind, reads⟩ :=
    beforeTop_append_of_not_mem (@not_mem_of_blanks _ blankBehind '=' (by decide)) {} text
  have declared : beforeTop '=' {} (before ++ (text ++ behind)) =
      before ++ (beforeTop '=' {} text ++ rest) := by
    rw [beforeTop_append (Nesting.hides_of_not_mem (not_mem_of_blanks blankBefore (by decide))),
      beforeTop_eq_of_alike (Nesting.alike_steps_of_blanks blankBefore), reads]
  have blankRest : ∀ character ∈ rest, isBlank character = true :=
    fun character member => blankBehind character (fromBehind member)
  rw [parameterType?, parameterType?, declared, trim_between _ blankBefore blankRest]

theorem filterMap_splitTop_between (text : List Char) :
    (splitTop ',' (before ++ (text ++ behind))).filterMap parameterType? =
      (splitTop ',' text).filterMap parameterType? := by
  obtain ⟨front, last, split, splitOn⟩ := splitFrom_append_of_not_mem
    (@not_mem_of_blanks _ blankBehind ',' (by decide)) {} text
  have pieces : splitTop ',' (before ++ (text ++ behind)) =
      prependFirst before (front ++ [last ++ behind]) := by
    rw [splitTop, splitFrom_append (Nesting.hides_of_not_mem (not_mem_of_blanks blankBefore
      (by decide))), splitFrom_eq_of_alike (Nesting.alike_steps_of_blanks blankBefore), splitOn]
  have none : ∀ character ∈ ([] : List Char), isBlank character = true := by simp
  have lastType : parameterType? (last ++ behind) = parameterType? last :=
    parameterType?_between none blankBehind last
  rw [pieces, splitTop, split]
  cases front with
  | nil =>
      have lastType : parameterType? (before ++ (last ++ behind)) = parameterType? last :=
        parameterType?_between blankBefore blankBehind last
      simp only [prependFirst, List.nil_append, List.filterMap_cons, lastType]
  | cons first others =>
      have firstType : parameterType? (before ++ first) = parameterType? first := by
        simpa using parameterType?_between blankBefore none first
      simp only [prependFirst, List.cons_append, List.filterMap_cons, List.filterMap_append,
        firstType, lastType]

end

theorem types_eq_of_ne_void {text : List Char} (notVoid : trim text ≠ "void".toList) :
    types text = (splitTop ',' text).filterMap parameterType? := by
  obtain ⟨before, behind, shape, blankBefore, blankBehind⟩ := parts_of_trim text
  have untrimmed := filterMap_splitTop_between blankBefore blankBehind (trim text)
  rw [← shape] at untrimmed
  rw [types, untrimmed]
  cases inside : trim text with
  | nil => rfl
  | cons first rest =>
      have declares : ¬ ((first :: rest).isEmpty || first :: rest = "void".toList) = true := by
        rw [List.isEmpty_cons, Bool.false_or, decide_eq_true_eq, ← inside]
        exact notVoid
      exact if_neg declares

theorem trim_commaSeparated_ne_void {pieces : List (List Char)}
    (notVoid : ∀ piece ∈ pieces, trim piece ≠ "void".toList) :
    trim (commaSeparated pieces) ≠ "void".toList := by
  match pieces with
  | [] => decide
  | [piece] => simpa [commaSeparated] using notVoid piece (by simp)
  | piece :: next :: later =>
      intro isVoid
      obtain ⟨before, behind, shape, blankBefore, blankBehind⟩ :=
        parts_of_trim (commaSeparated (piece :: next :: later))
      have comma : ',' ∈ commaSeparated (piece :: next :: later) := by
        simp
      rw [shape, isVoid, List.mem_append, List.mem_append] at comma
      rcases comma with inFront | inWord | behindIt
      · exact not_mem_of_blanks blankBefore (by decide) inFront
      · exact absurd inWord (by decide)
      · exact not_mem_of_blanks blankBehind (by decide) behindIt

/-- A parameter list declares what its pieces declare. -/
theorem types_commaSeparated {pieces : List (List Char)}
    (hide : ∀ piece ∈ pieces, Nesting.Hides ',' {} piece)
    (close : ∀ piece ∈ pieces.dropLast, (Nesting.steps {} piece).isTop = true)
    (notVoid : ∀ piece ∈ pieces, trim piece ≠ "void".toList) :
    types (commaSeparated pieces) = pieces.filterMap parameterType? := by
  cases pieces with
  | nil => rfl
  | cons piece others =>
      rw [types_eq_of_ne_void (trim_commaSeparated_ne_void notVoid),
        splitTop_commaSeparated (by simp) hide close]

end ScriptRegistrar.ParameterList
