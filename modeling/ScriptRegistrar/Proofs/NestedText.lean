import ScriptRegistrar.Proofs.BracketCounts

/-!
# Nested text

A text is nested if every bracket in it is closed by one of its own kind, with nested text between
the two.  A scan of a parameter list only counts: one count for round, square and curly brackets
together, one for angle brackets.  On nested text counting is enough, as long as there are no more
brackets than can be counted.  Behind it the counts are what they were before it, and inside its
brackets they never go down to where they started, so that no sign in there is taken for one
outside.
-/

namespace ScriptRegistrar.ParameterList

open Text

/-- The brackets that count everywhere; angle brackets do so only in types. -/
def bracketPairs : List (Char × Char) :=
  [('(', ')'), ('[', ']'), ('\x7b', '\x7d')]

/-- A character that opens or closes no bracket of any kind. -/
def isUnbracketed (character : Char) : Bool :=
  !(['(', '[', '\x7b', ')', ']', '\x7d', '<', '>'].contains character)

/-- Whether the brackets of a text are properly nested and the characters outside of them are free.
Angle brackets do not occur. -/
inductive Nested : (Char → Bool) → List Char → Prop where
  | nil (free : Char → Bool) : Nested free []
  | character {free : Char → Bool} {next : Char} {rest : List Char}
      (unbracketed : isUnbracketed next = true) (isFree : free next = true)
      (others : Nested free rest) : Nested free (next :: rest)
  | group {free : Char → Bool} {opening closing : Char} {inside rest : List Char}
      (pair : (opening, closing) ∈ bracketPairs) (within : Nested (fun _ => true) inside)
      (others : Nested free rest) : Nested free (opening :: (inside ++ closing :: rest))

theorem Nested.of_isUnbracketed {text : List Char}
    (unbracketed : ∀ character ∈ text, isUnbracketed character = true) :
    Nested (fun _ => true) text := by
  induction text with
  | nil => exact .nil _
  | cons next rest induction =>
      obtain ⟨first, others⟩ := List.forall_mem_cons.mp unbracketed
      exact .character first rfl (induction others)

namespace Nesting

/-- Whether a text leads back to the nesting before it and has only free characters outside of all
brackets, if its brackets can be counted.  Within brackets that are open before the text, all of it
is inside. -/
structure Levels (free : Char → Bool) (nesting : Nesting) (text : List Char) : Prop where
  back : nesting.HasRoom text → ∃ previous, nesting.steps text = { nesting with previous }
  hides : nesting.HasRoom text → ∀ sign, (nesting.isTop = true → free sign = false) →
    nesting.Hides sign text

namespace Levels

variable {free wider : Char → Bool} {nesting : Nesting} {left right text : List Char}

theorem of_hasRoom (levels : nesting.HasRoom text → Levels free nesting text) :
    Levels free nesting text :=
  ⟨fun room => (levels room).back room, fun room => (levels room).hides room⟩

theorem nil (free : Char → Bool) (nesting : Nesting) : Levels free nesting [] :=
  ⟨fun _ => ⟨nesting.previous, rfl⟩, fun _ _ _ => trivial⟩

theorem append (first : Levels free nesting left)
    (second : ∀ previous, Levels free { nesting with previous } right) :
    Levels free nesting (left ++ right) := by
  refine .of_hasRoom fun room => ?_
  obtain ⟨middle, leads⟩ := first.back room.left_of_append
  have roomBehind := room.steps_of_append
  rw [leads] at roomBehind
  obtain ⟨last, leadsOn⟩ := (second middle).back roomBehind
  constructor
  · exact fun _ => ⟨last, by simp [leads, leadsOn]⟩
  · intro _ sign isHidden
    rw [hides_append, leads]
    exact ⟨first.hides room.left_of_append sign isHidden,
      (second middle).hides roomBehind sign isHidden⟩

theorem mono (levels : Levels free nesting text)
    (fewer : ∀ character, free character = true → wider character = true) :
    Levels wider nesting text := by
  refine ⟨levels.back, fun room sign isHidden => levels.hides room sign fun top => ?_⟩
  cases isFree : free sign with
  | false => rfl
  | true => rw [← isHidden top, fewer sign isFree]

theorem isTop_steps (levels : Levels free nesting text) (room : nesting.HasRoom text)
    (top : nesting.isTop = true) : (nesting.steps text).isTop = true := by
  obtain ⟨previous, leads⟩ := levels.back room
  rw [leads]
  exact top

theorem of_step {character : Char} (isFree : free character = true)
    (stays : nesting.step character = { nesting with previous := some character }) :
    Levels free nesting [character] := by
  refine ⟨fun _ => ⟨some character, stays⟩, fun _ sign isHidden => ⟨?_, trivial⟩⟩
  rintro rfl
  cases top : nesting.isTop with
  | false => rfl
  | true =>
      rw [isHidden top] at isFree
      exact Bool.noConfusion isFree

theorem of_isPlain (plain : ∀ character ∈ text, isPlain character = true)
    (areFree : ∀ character ∈ text, free character = true) : Levels free nesting text := by
  induction text generalizing nesting with
  | nil => exact nil free nesting
  | cons next rest induction =>
      obtain ⟨nextPlain, restPlain⟩ := List.forall_mem_cons.mp plain
      obtain ⟨nextFree, restFree⟩ := List.forall_mem_cons.mp areFree
      rw [← List.singleton_append]
      exact (of_step nextFree (step_of_isPlain nesting nextPlain)).append
        fun _ => induction restPlain restFree

/-- Brackets around level text are level, if the bracket that opens them may stand there. -/
theorem group {opening closing : Char} {deeper : Nesting} {inside : List Char}
    (opens : nesting.step opening = deeper) (isFree : free opening = true)
    (inner : deeper.isTop = false)
    (closes : ∀ previous, { deeper with previous }.step closing =
      { nesting with previous := some closing })
    (within : Levels (fun _ => true) deeper inside) :
    Levels free nesting (opening :: (inside ++ [closing])) := by
  refine .of_hasRoom fun room => ?_
  have roomInside := room.step_of_cons.left_of_append
  rw [opens] at roomInside
  obtain ⟨last, leads⟩ := within.back roomInside
  constructor
  · exact fun _ => ⟨some closing, by simpa [opens, leads] using closes last⟩
  · intro _ sign isHidden
    refine ⟨?_, ?_⟩
    · rintro rfl
      cases top : nesting.isTop with
      | false => rfl
      | true =>
          rw [isHidden top] at isFree
          exact Bool.noConfusion isFree
    · rw [opens, hides_append, leads]
      have hidden := within.hides roomInside sign fun top => by simp [inner] at top
      exact ⟨hidden, fun _ => inner, trivial⟩

end Levels

theorem step_opening_angle {nesting : Nesting} (inType : nesting.inDefault = false) :
    nesting.step '<' = { nesting with angles := nesting.angles + 1, previous := some '<' } := by
  simp [step, opensTemplate, inType]

@[simp] theorem step_closing_angle (nesting : Nesting) : nesting.step '>' =
    { nesting with angles := oneFewer nesting.angles, previous := some '>' } := rfl

/-- Angle brackets around level text are level in a type. -/
theorem levels_angles {free : Char → Bool} {nesting : Nesting} {inside : List Char}
    (inType : nesting.inDefault = false) (isFree : free '<' = true)
    (within : ∀ deeper : Nesting, deeper.inDefault = false → deeper.isTop = false →
      Levels (fun _ => true) deeper inside) :
    Levels free nesting ('<' :: (inside ++ ['>'])) := by
  refine .of_hasRoom fun room => ?_
  have roomForOne : nesting.angles.toNat + 1 < UInt32.size := room.angles_of_cons rfl
  have inner : isTop { nesting with angles := nesting.angles + 1, previous := some '<' } = false := by
    simp [isTop, oneMore_ne_zero roomForOne]
  refine .group (step_opening_angle inType) isFree inner (fun _ => ?_) (within _ inType inner)
  rw [step_closing_angle]
  simp only [oneFewer_oneMore roomForOne]

theorem opensBracket_of_mem {opening closing : Char} (pair : (opening, closing) ∈ bracketPairs) :
    opensBracket opening = true := by
  have all : ∀ pair ∈ bracketPairs, opensBracket pair.1 = true := by decide
  exact all _ pair

theorem step_opening {opening closing : Char} (pair : (opening, closing) ∈ bracketPairs)
    (nesting : Nesting) : nesting.step opening =
      { nesting with brackets := nesting.brackets + 1, previous := some opening } := by
  simp only [bracketPairs, List.mem_cons, Prod.mk.injEq, List.not_mem_nil, or_false] at pair
  rcases pair with ⟨rfl, rfl⟩ | ⟨rfl, rfl⟩ | ⟨rfl, rfl⟩ <;> rfl

theorem step_closing {opening closing : Char} (pair : (opening, closing) ∈ bracketPairs)
    (nesting : Nesting) : nesting.step closing =
      { nesting with brackets := oneFewer nesting.brackets, previous := some closing } := by
  simp only [bracketPairs, List.mem_cons, Prod.mk.injEq, List.not_mem_nil, or_false] at pair
  rcases pair with ⟨rfl, rfl⟩ | ⟨rfl, rfl⟩ | ⟨rfl, rfl⟩ <;> rfl

/-- Brackets that count everywhere are level around level text. -/
theorem levels_brackets {free : Char → Bool} {nesting : Nesting} {opening closing : Char}
    {inside : List Char} (pair : (opening, closing) ∈ bracketPairs) (isFree : free opening = true)
    (within : ∀ deeper : Nesting, deeper.isTop = false → Levels (fun _ => true) deeper inside) :
    Levels free nesting (opening :: (inside ++ [closing])) := by
  refine .of_hasRoom fun room => ?_
  have roomForOne : nesting.brackets.toNat + 1 < UInt32.size :=
    room.brackets_of_cons (opensBracket_of_mem pair)
  have inner : isTop { nesting with
      brackets := nesting.brackets + 1, previous := some opening } = false := by
    simp [isTop, oneMore_ne_zero roomForOne]
  refine .group (step_opening pair nesting) isFree inner (fun _ => ?_) (within _ inner)
  rw [step_closing pair]
  simp only [oneFewer_oneMore roomForOne]

theorem step_of_isUnbracketed {nesting : Nesting} {character : Char}
    (unbracketed : isUnbracketed character = true)
    (settled : nesting.inDefault = true ∨ nesting.isTop = false ∨ character ≠ '=') :
    nesting.step character = { nesting with previous := some character } := by
  simp only [isUnbracketed, Bool.not_eq_true', List.contains_eq_mem, decide_eq_false_iff_not,
    List.mem_cons, List.not_mem_nil, or_false, not_or] at unbracketed
  obtain ⟨round, square, curly, roundEnd, squareEnd, curlyEnd, angle, angleEnd⟩ := unbracketed
  rcases settled with inDefault | inner | different
  · simp [step, round, square, curly, roundEnd, squareEnd, curlyEnd, angle, angleEnd, inDefault]
  · simp [step, round, square, curly, roundEnd, squareEnd, curlyEnd, angle, angleEnd, inner]
  · simp [step, round, square, curly, roundEnd, squareEnd, curlyEnd, angle, angleEnd, different]

/-- Nested text is level where no equals sign of it begins a default value: in one, in brackets, and
if there is none outside of its own brackets. -/
theorem levels_of_nested {free : Char → Bool} {text : List Char} (nested : Nested free text)
    (brackets : ∀ pair ∈ bracketPairs, free pair.1 = true) {nesting : Nesting}
    (settled : nesting.inDefault = true ∨ nesting.isTop = false ∨ free '=' = false) :
    Levels free nesting text := by
  induction nested generalizing nesting with
  | nil free => exact .nil free nesting
  | @character free next rest unbracketed isFree _ induction =>
      have nextSettled : nesting.inDefault = true ∨ nesting.isTop = false ∨ next ≠ '=' := by
        refine settled.imp_right (Or.imp_right fun notFree => ?_)
        rintro rfl
        rw [notFree] at isFree
        exact Bool.noConfusion isFree
      rw [← List.singleton_append]
      exact (Levels.of_step isFree (step_of_isUnbracketed unbracketed nextSettled)).append
        fun _ => induction brackets settled
  | @group free opening closing inside rest pair _ _ within others =>
      have grouped : Levels free nesting (opening :: (inside ++ [closing])) :=
        levels_brackets pair (brackets _ pair) fun _ inner =>
          within (by simp) (Or.inr (Or.inl inner))
      have whole := grouped.append fun _ => others brackets settled
      simpa using whole

end Nesting

end ScriptRegistrar.ParameterList
