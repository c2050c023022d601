import ScriptRegistrar.ParameterList

/-!
# Reading a parameter list in parts

The scans of a parameter list carry a `Nesting` from character to character.  A first part of a
text that hides a sign inside brackets is read without stopping at the sign, and the scan goes on
behind it with the nesting the part leads to.
-/

namespace ScriptRegistrar.ParameterList

open Text

namespace Nesting

/-- The nesting behind a text. -/
def steps (nesting : Nesting) (text : List Char) : Nesting :=
  text.foldl step nesting

@[simp] theorem steps_nil (nesting : Nesting) : nesting.steps [] = nesting := rfl

@[simp] theorem steps_append (nesting : Nesting) (left right : List Char) :
    nesting.steps (left ++ right) = (nesting.steps left).steps right :=
  List.foldl_append

@[simp] theorem steps_cons (nesting : Nesting) (next : Char) (rest : List Char) :
    nesting.steps (next :: rest) = (nesting.step next).steps rest := rfl

/-- Whether every `sign` of a text stands inside brackets. -/
def Hides (sign : Char) (nesting : Nesting) : List Char → Prop
  | [] => True
  | next :: rest => (next = sign → nesting.isTop = false) ∧ Hides sign (nesting.step next) rest

@[simp] theorem hides_append {sign : Char} {nesting : Nesting} {left right : List Char} :
    nesting.Hides sign (left ++ right) ↔
      nesting.Hides sign left ∧ (nesting.steps left).Hides sign right := by
  induction left generalizing nesting with
  | nil => simp [Hides]
  | cons next rest induction =>
      simp only [List.cons_append, Hides, steps_cons, induction, and_assoc]

theorem hides_of_not_mem {sign : Char} {nesting : Nesting} {text : List Char}
    (absent : sign ∉ text) : nesting.Hides sign text := by
  induction text generalizing nesting with
  | nil => trivial
  | cons next rest induction =>
      simp only [List.mem_cons, not_or] at absent
      obtain ⟨different, absent⟩ := absent
      exact ⟨fun equality => (different equality.symm).elim, induction absent⟩

/-- A character that neither opens nor closes a bracket nor begins a default value. -/
def isPlain (character : Char) : Bool :=
  !(['(', '[', '\x7b', ')', ']', '\x7d', '<', '>', '='].contains character)

theorem isPlain_of_isIdentifierChar {character : Char}
    (identifier : isIdentifierChar character = true) : isPlain character = true := by
  cases plain : isPlain character with
  | true => rfl
  | false =>
      simp only [isPlain, Bool.not_eq_false', List.contains_eq_mem, List.mem_cons,
        List.not_mem_nil, or_false, decide_eq_true_eq] at plain
      rcases plain with rfl | rfl | rfl | rfl | rfl | rfl | rfl | rfl | rfl <;>
        exact Bool.noConfusion identifier

theorem step_of_isPlain (nesting : Nesting) {character : Char}
    (plain : isPlain character = true) :
    nesting.step character = { nesting with previous := some character } := by
  simp only [isPlain, Bool.not_eq_true', List.contains_eq_mem, decide_eq_false_iff_not,
    List.mem_cons, List.not_mem_nil, or_false, not_or] at plain
  obtain ⟨round, square, curly, roundEnd, squareEnd, curlyEnd, angle, angleEnd, equals⟩ := plain
  simp [step, round, square, curly, roundEnd, squareEnd, curlyEnd, angle, angleEnd, equals]

/-- Plain text leads to where it started, but for the character before. -/
theorem steps_of_isPlain (nesting : Nesting) {text : List Char}
    (plain : ∀ character ∈ text, isPlain character = true) :
    nesting.steps text = { nesting with previous := text.getLast?.or nesting.previous } := by
  induction text generalizing nesting with
  | nil => rfl
  | cons next rest induction =>
      obtain ⟨nextPlain, restPlain⟩ := List.forall_mem_cons.mp plain
      rw [steps_cons, step_of_isPlain nesting nextPlain, induction _ restPlain]
      cases rest with
      | nil => rfl
      | cons second others => simp [List.getLast?_cons]

end Nesting

/-- Puts text in front of the first of some pieces. -/
def prependFirst (text : List Char) : List (List Char) → List (List Char)
  | [] => [text]
  | piece :: others => (text ++ piece) :: others

theorem splitFrom_ne_nil (separator : Char) (nesting : Nesting) (text : List Char) :
    splitFrom separator nesting text ≠ [] := by
  cases text with
  | nil => simp [splitFrom]
  | cons next rest =>
      simp only [splitFrom]
      split
      · simp
      · split <;> simp

theorem length_prependFirst {text : List Char} {pieces : List (List Char)} (nonempty : pieces ≠ []) :
    (prependFirst text pieces).length = pieces.length := by
  cases pieces with
  | nil => exact (nonempty rfl).elim
  | cons piece others => rfl

theorem splitFrom_cons (separator : Char) (nesting : Nesting) (next : Char) (rest : List Char) :
    splitFrom separator nesting (next :: rest) =
      if next = separator && nesting.isTop then [] :: splitFrom separator {} rest
      else prependFirst [next] (splitFrom separator (nesting.step next) rest) := by
  rw [splitFrom]
  split
  · rfl
  · cases splitFrom separator (nesting.step next) rest <;> rfl

/-- What hides its separators goes into one piece. -/
theorem splitFrom_append {separator : Char} {nesting : Nesting} {left right : List Char}
    (hides : nesting.Hides separator left) :
    splitFrom separator nesting (left ++ right) =
      prependFirst left (splitFrom separator (nesting.steps left) right) := by
  induction left generalizing nesting with
  | nil =>
      cases pieces : splitFrom separator nesting right with
      | nil => exact (splitFrom_ne_nil separator nesting right pieces).elim
      | cons piece others => simp [Nesting.steps, pieces, prependFirst]
  | cons next rest induction =>
      have hidden : (next = separator && nesting.isTop) = false := by
        by_cases same : next = separator
        · simp [hides.1 same]
        · simp [same]
      rw [List.cons_append, splitFrom_cons, hidden, induction hides.2, Nesting.steps_cons]
      cases splitFrom separator ((nesting.step next).steps rest) right <;> simp [prependFirst]

theorem beforeTop_append {sign : Char} {nesting : Nesting} {left right : List Char}
    (hides : nesting.Hides sign left) :
    beforeTop sign nesting (left ++ right) =
      left ++ beforeTop sign (nesting.steps left) right := by
  induction left generalizing nesting with
  | nil => rfl
  | cons next rest induction =>
      have hidden : (next = sign && nesting.isTop) = false := by
        by_cases same : next = sign
        · simp [hides.1 same]
        · simp [same]
      simp [beforeTop, hidden, induction hides.2]

theorem beforeTop_of_not_mem {sign : Char} {nesting : Nesting} {text : List Char}
    (absent : sign ∉ text) : beforeTop sign nesting text = text := by
  have all := @beforeTop_append sign nesting text [] (Nesting.hides_of_not_mem absent)
  simpa [beforeTop] using all

theorem lastTopBlank?_of_hides {nesting : Nesting} {text : List Char}
    (hides : ∀ blank, isBlank blank = true → nesting.Hides blank text) :
    lastTopBlank? nesting text = none := by
  induction text generalizing nesting with
  | nil => rfl
  | cons next rest induction =>
      have others := induction fun blank isBlank => (hides blank isBlank).2
      have hidden : (isBlank next && nesting.isTop) = false := by
        cases blank : isBlank next with
        | false => rfl
        | true => exact (hides next blank).1 rfl
      simp [lastTopBlank?, others, hidden]

/-- A text is split before its last blank outside all brackets. -/
theorem lastTopBlank?_append_of_hides {nesting : Nesting} {head tail : List Char} {blank : Char}
    (isBlank : Text.isBlank blank = true) (top : (nesting.steps head).isTop = true)
    (hides : ∀ sign, Text.isBlank sign = true →
      (nesting.steps (head ++ [blank])).Hides sign tail) :
    lastTopBlank? nesting (head ++ blank :: tail) = some (head, blank :: tail) := by
  induction head generalizing nesting with
  | nil =>
      have top : nesting.isTop = true := top
      have noneBehind : lastTopBlank? (nesting.step blank) tail = none :=
        lastTopBlank?_of_hides hides
      simp [lastTopBlank?, noneBehind, top, isBlank]
  | cons next rest induction =>
      rw [List.cons_append, lastTopBlank?, induction top hides]

/-- What a text is split into is all of it, and the second part starts with a blank. -/
theorem parts_of_lastTopBlank? {nesting : Nesting} {text head tail : List Char}
    (split : lastTopBlank? nesting text = some (head, tail)) :
    ∃ blank rest, isBlank blank = true ∧ tail = blank :: rest ∧ text = head ++ tail := by
  induction text generalizing nesting head with
  | nil => cases split
  | cons next others induction =>
      rw [lastTopBlank?] at split
      cases further : lastTopBlank? (nesting.step next) others with
      | some parts =>
          rw [further] at split
          cases split
          obtain ⟨blank, rest, blankFirst, tailShape, shape⟩ := induction further
          exact ⟨blank, rest, blankFirst, tailShape, congrArg (next :: ·) shape⟩
      | none =>
          rw [further] at split
          by_cases splits : (isBlank next && nesting.isTop) = true
          · simp only [splits, if_true, Option.some.injEq, Prod.mk.injEq] at split
            obtain ⟨rfl, rfl⟩ := split
            exact ⟨next, others, (Bool.and_eq_true_iff.mp splits).1, rfl, rfl⟩
          · simp [splits] at split

end ScriptRegistrar.ParameterList
