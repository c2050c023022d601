import Mathlib.Data.List.Forall2
import ScriptRegistrar.Proofs.Layout.Relaid

/-!
# Reading two layouts of a text

Two places are alike if the texts before them and the texts ahead are layouts of one another.
Every step of a cursor leads from alike places to alike places or fails at both.  So recognisers
made of such steps read alike constructs, and a search whose recogniser begins with a word finds
alike constructs, since it reads nothing inside a run of blanks.
-/

namespace ScriptRegistrar.Text

section

variable {α β γ δ : Type} {relation : α → β → Prop} {further : γ → δ → Prop}

theorem cases_of_rel {left : Option α} {right : Option β}
    (related : Option.Rel relation left right) :
    left = none ∧ right = none ∨
      ∃ first second, left = some first ∧ right = some second ∧ relation first second := by
  cases related with
  | some related => exact Or.inr ⟨_, _, rfl, rfl, related⟩
  | none => exact Or.inl ⟨rfl, rfl⟩

theorem rel_bind {left : Option α} {right : Option β} {fromLeft : α → Option γ}
    {fromRight : β → Option δ} (related : Option.Rel relation left right)
    (goesOn : ∀ first second, relation first second →
      Option.Rel further (fromLeft first) (fromRight second)) :
    Option.Rel further (left.bind fromLeft) (right.bind fromRight) := by
  cases related with
  | some related => exact goesOn _ _ related
  | none => exact .none

theorem rel_getD {left : Option α} {right : Option β} {first : α} {second : β}
    (related : Option.Rel relation left right) (otherwise : relation first second) :
    relation (left.getD first) (right.getD second) := by
  cases related with
  | some related => exact related
  | none => exact otherwise

theorem rel_or {left otherLeft : Option α} {right otherRight : Option β}
    (related : Option.Rel relation left right)
    (otherwise : Option.Rel relation otherLeft otherRight) :
    Option.Rel relation (left <|> otherLeft) (right <|> otherRight) := by
  cases related with
  | some related => exact .some related
  | none => exact otherwise

theorem rel_of_eq {left right : Option α} (same : left = right) :
    Option.Rel (· = ·) left right := by
  subst same
  cases left with
  | none => exact .none
  | some value => exact .some rfl

theorem rel_guard {left right : Bool} (same : left = right) :
    Option.Rel (fun _ _ : Unit => True) (guard (left = true)) (guard (right = true)) := by
  subst same
  cases left with
  | true => exact .some trivial
  | false => exact .none

theorem isSome_eq_of_rel {left : Option α} {right : Option β}
    (related : Option.Rel relation left right) : left.isSome = right.isSome := by
  cases related <;> rfl

end

namespace Cursor

structure Alike (left right : Cursor) : Prop where
  passed : Relaid left.passed right.passed
  ahead : Relaid left.ahead right.ahead

/-- What is read at alike places: related constructs, and alike places behind them. -/
def AlikeBehind (relation : α → α → Prop) (left right : α × Cursor) : Prop :=
  relation left.1 right.1 ∧ Alike left.2 right.2

theorem alike_start {left right : List Char} (relaid : Relaid left right) :
    Alike (start left) (start right) :=
  ⟨.nil, relaid⟩

namespace Alike

variable {left right : Cursor} (alike : Alike left right)

include alike

theorem isBoundary : left.isBoundary = right.isBoundary := by
  rw [Cursor.isBoundary, Cursor.isBoundary, Text.isBoundary, Text.isBoundary,
    alike.passed.head?_any .isWord, alike.ahead.head?_any .isWord]

theorem nextIs {test : Char → Bool} (ignores : IgnoresLayout test) :
    left.nextIs test = right.nextIs test :=
  alike.ahead.head?_any ignores

theorem literal? {expected : List Char} (solid : IsSolid expected) :
    Option.Rel Alike (left.literal? expected) (right.literal? expected) := by
  unfold Cursor.literal?
  rw [← alike.ahead.isPrefixOf_eq solid]
  split
  · rename_i comesNext
    exact .some ⟨(Relaid.refl _).append alike.passed, alike.ahead.drop solid comesNext⟩
  · exact .none

theorem sign? {expected : String} (solid : IsSolid expected.toList) :
    Option.Rel Alike (left.sign? expected) (right.sign? expected) :=
  alike.literal? solid

theorem passWhile {test : Char → Bool} (ignores : IgnoresLayout test) :
    Alike (left.passWhile test) (right.passWhile test) :=
  ⟨(alike.ahead.takeWhile ignores).reverse.append alike.passed, alike.ahead.dropWhile ignores⟩

theorem passBlanks : Alike left.passBlanks right.passBlanks :=
  alike.passWhile .isBlank

theorem blanks? : Option.Rel Alike left.blanks? right.blanks? := by
  unfold Cursor.blanks?
  rw [← alike.nextIs .isBlank]
  split
  · exact .some alike.passBlanks
  · exact .none

theorem word? : Option.Rel (AlikeBehind (· = ·)) left.word? right.word? := by
  unfold Cursor.word?
  rw [← alike.ahead.takeWhile_eq .isWord fun _ blank => isWord_of_isBlank blank]
  split
  · exact .none
  · exact .some ⟨rfl, alike.passWhile .isWord⟩

theorem passOptional {expected : String} (solid : IsSolid expected.toList) :
    Alike (left.passOptional expected) (right.passOptional expected) := by
  apply rel_getD _ alike
  rw [Option.map_eq_bind, Option.map_eq_bind]
  apply rel_bind (alike.sign? solid)
  intro behindLeft behindRight behind
  exact .some behind.passBlanks

end Alike

end Cursor

namespace Recogniser

open Cursor

/-- Whether a reader reads related results at alike places. -/
def ReadsAlike (relation : α → α → Prop) (read : Cursor → Option α) : Prop :=
  ∀ left right, Alike left right → Option.Rel relation (read left) (read right)

/-- A search passes over blanks if its recogniser begins with a word. -/
theorem firstFrom?_append_of_blanks {known : List Char → Prop} {read : Cursor → Option α}
    (begins : BeginsWith known read) (unknown : ¬ known []) {run : List Char}
    (isRun : IsBlankRun run) (passed rest : List Char) :
    firstFrom? read passed (run ++ rest) = firstFrom? read (run.reverse ++ passed) rest :=
  firstFrom?_append_of_signs begins unknown
    (fun character member => isWord_of_isBlank (isRun.blank character member)) passed rest

section

variable {relation : α → α → Prop} {known : List Char → Prop} (unknown : ¬ known [])

include unknown

/-- A search finds related results from alike places. -/
theorem first?_alike {read : Cursor → Option α} (readsAlike : ReadsAlike relation read)
    (begins : BeginsWith known read) {left right : Cursor} (alike : Alike left right) :
    Option.Rel relation (first? read left) (first? read right) := by
  obtain ⟨passed, ahead⟩ := left
  obtain ⟨otherPassed, otherAhead⟩ := right
  obtain ⟨samePassed, sameAhead⟩ := alike
  simp only [first?] at samePassed sameAhead ⊢
  induction sameAhead generalizing passed otherPassed with
  | nil => exact readsAlike _ _ ⟨samePassed, .nil⟩
  | @character next rest otherRest solid sameRest induction =>
      have here := readsAlike ⟨passed, next :: rest⟩ ⟨otherPassed, next :: otherRest⟩
        ⟨samePassed, .character solid sameRest⟩
      rw [firstFrom?, firstFrom?]
      generalize read ⟨passed, next :: rest⟩ = result at here ⊢
      generalize read ⟨otherPassed, next :: otherRest⟩ = otherResult at here ⊢
      cases here with
      | some related => exact .some related
      | none => exact induction _ _ (.character solid samePassed)
  | blanks first second _ induction =>
      rw [firstFrom?_append_of_blanks begins unknown first,
        firstFrom?_append_of_blanks begins unknown second]
      exact induction _ _ (.blanks first.reverse second.reverse samePassed)

/-- What occurs behind alike places is related, one by one. -/
theorem occurrences_alike {read : Recogniser α} (advances : Advances read)
    (readsAlike : ReadsAlike (AlikeBehind relation) read) (begins : BeginsWith known read)
    {left right : Cursor} (alike : Alike left right) :
    List.Forall₂ relation (occurrences read left) (occurrences read right) := by
  generalize length : left.ahead.length = bound
  induction bound using Nat.strongRecOn generalizing left right with
  | ind bound induction =>
      rcases cases_of_rel (first?_alike unknown readsAlike begins alike) with
        ⟨onLeft, onRight⟩ | ⟨_, _, onLeft, onRight, related, behind⟩
      · rw [occurrences_eq_nil onLeft, occurrences_eq_nil onRight]
        exact .nil
      · rw [occurrences_eq_cons advances onLeft, occurrences_eq_cons advances onRight]
        have shorter := firstFrom?_advances advances onLeft
        exact .cons related (induction _ (by omega) behind rfl)

end

end Recogniser

end ScriptRegistrar.Text
