import ScriptRegistrar.Proofs.WrittenParameters

/-!
# Operators in default values

A default value may be an expression of decimal literals and operators.  Splitting takes a `<` for
the start of a template argument list if an identifier character stands right in front of it, and
digits are identifier characters.  So `0 < 1` is read as a comparison, but `0<1` opens a bracket,
and if no `>` closes it again the comma behind the parameter separates nothing.
-/

namespace ScriptRegistrar.Written

open Text ParameterList

/-- An operator between two literals. -/
inductive Operator where
  | plus
  | minus
  | slash
  | less
  | greater
  | atMost
  | atLeast
  | shiftLeft
  | shiftRight
  | equal
  | unequal

namespace Operator

def print : Operator → List Char
  | plus => "+".toList
  | minus => "-".toList
  | slash => "/".toList
  | less => "<".toList
  | greater => ">".toList
  | atMost => "<=".toList
  | atLeast => ">=".toList
  | shiftLeft => "<<".toList
  | shiftRight => ">>".toList
  | equal => "==".toList
  | unequal => "!=".toList

/-- Whether an operator starts with a sign that may open a bracket. -/
def opens : Operator → Bool
  | less | atMost | shiftLeft => true
  | _ => false

/-- How many signs of an operator may close a bracket. -/
def closings : Operator → Nat
  | greater | atLeast => 1
  | shiftRight => 2
  | _ => 0

/-- How many angle brackets seem open behind an operator, if `count` are open in front of it.
`glued` says that the operator follows a literal without a blank. -/
def opened (operator : Operator) (glued : Bool) (count : Nat) : Nat :=
  if operator.opens && glued then count + 1 else count - operator.closings

end Operator

/-- A decimal literal. -/
structure IsLiteral (literal : List Char) : Prop where
  nonempty : literal ≠ []
  digits : ∀ character ∈ literal, character.isDigit = true

/-- An operator with blanks around it or none, and the literal behind it. -/
structure Operation where
  before : List Char
  operator : Operator
  behind : List Char
  literal : List Char
  blank : ∀ character ∈ before ++ behind, isBlank character = true
  isLiteral : IsLiteral literal

namespace Operation

def print (operation : Operation) : List Char :=
  operation.before ++ (operation.operator.print ++ (operation.behind ++ operation.literal))

def opened (count : Nat) (operation : Operation) : Nat :=
  operation.operator.opened operation.before.isEmpty count

end Operation

/-- A literal and the operations behind it. -/
structure Expression where
  literal : List Char
  operations : List Operation
  isLiteral : IsLiteral literal

namespace Expression

def print (expression : Expression) : List Char :=
  expression.literal ++ expression.operations.flatMap Operation.print

/-- How many angle brackets seem open behind an expression, if `count` are open in front of it. -/
def opened (count : Nat) (expression : Expression) : Nat :=
  expression.operations.foldl Operation.opened count

end Expression

theorem isIdentifierChar_of_isDigit {character : Char} (digit : character.isDigit = true) :
    isIdentifierChar character = true := by
  simp [isIdentifierChar, Char.isAlphanum, digit]

/-- Behind a literal an identifier character comes last. -/
theorem IsLiteral.steps {literal : List Char} (isLiteral : IsLiteral literal) (nesting : Nesting) :
    ∃ last, isIdentifierChar last = true ∧
      nesting.steps literal = { nesting with previous := some last } := by
  have letters : ∀ character ∈ literal, isIdentifierChar character = true :=
    fun character member => isIdentifierChar_of_isDigit (isLiteral.digits character member)
  obtain ⟨last, ends⟩ := Option.isSome_iff_exists.mp (List.getLast?_isSome.mpr isLiteral.nonempty)
  refine ⟨last, letters last (List.mem_of_getLast? ends), ?_⟩
  rw [nesting.steps_of_isPlain fun character member =>
    Nesting.isPlain_of_isIdentifierChar (letters character member), ends, Option.some_or]

theorem steps_of_blanks {blanks : List Char}
    (blank : ∀ character ∈ blanks, isBlank character = true) (nesting : Nesting) :
    nesting.steps blanks = { nesting with previous := blanks.getLast?.or nesting.previous } :=
  nesting.steps_of_isPlain fun character member =>
    Nesting.isPlain_of_isBlank (blank character member)

/-- An operator changes the number of open angle brackets and nothing else. -/
theorem Operator.steps_print (operator : Operator) {nesting : Nesting}
    (room : nesting.HasRoom operator.print) (inDefault : nesting.inDefault = true) :
    ∃ angles previous, nesting.steps operator.print = { nesting with angles, previous } ∧
      angles.toNat =
        operator.opened (nesting.previous.any isIdentifierChar) nesting.angles.toNat := by
  refine ⟨(nesting.steps operator.print).angles, operator.print.getLast?, ?_⟩
  obtain ⟨brackets, angles, _, previous⟩ := nesting
  obtain rfl : _ = true := inDefault
  have notLetter : isIdentifierChar '<' = false := by decide
  have counted : operator.opens = true → (angles + 1).toNat = angles.toNat + 1 := by
    intro isOpening
    cases operator with
    | less | atMost | shiftLeft => exact toNat_oneMore (room.angles_of_cons rfl)
    | _ => cases isOpening
  cases glued : previous.any isIdentifierChar <;> cases operator <;>
    simp [print, opened, opens, closings, Nesting.steps, Nesting.step, Nesting.opensTemplate, glued,
      notLetter, Nat.sub_sub, -UInt32.toNat_add]
  all_goals exact counted rfl

theorem any_getLast?_or_of_blanks {blanks : List Char} {previous : Option Char}
    (blank : ∀ character ∈ blanks, isBlank character = true)
    (letter : previous.any isIdentifierChar = true) :
    (blanks.getLast?.or previous).any isIdentifierChar = blanks.isEmpty := by
  rcases List.eq_nil_or_concat blanks with rfl | ⟨front, last, rfl⟩
  · exact letter
  · have notLetter := isIdentifierChar_of_isBlank (blank last (by simp))
    simp [notLetter]

theorem Operation.steps_print (operation : Operation) {nesting : Nesting}
    (room : nesting.HasRoom operation.print) (inDefault : nesting.inDefault = true)
    (behindLiteral : nesting.previous.any isIdentifierChar = true) :
    ∃ angles last, isIdentifierChar last = true ∧
      nesting.steps operation.print = { nesting with angles, previous := some last } ∧
        angles.toNat = operation.opened nesting.angles.toNat := by
  obtain ⟨blankBefore, blankBehind⟩ := List.forall_mem_append.mp operation.blank
  have roomBehind := room.steps_of_append.left_of_append
  rw [steps_of_blanks blankBefore] at roomBehind
  obtain ⟨angles, sign, behindOperator, counted⟩ :=
    operation.operator.steps_print roomBehind inDefault
  rw [any_getLast?_or_of_blanks blankBefore behindLiteral] at counted
  obtain ⟨last, letter, behindNext⟩ := operation.isLiteral.steps
    { nesting with angles, previous := operation.behind.getLast?.or sign }
  refine ⟨angles, last, letter, ?_, counted⟩
  rw [print, Nesting.steps_append, steps_of_blanks blankBefore, Nesting.steps_append,
    behindOperator, Nesting.steps_append, steps_of_blanks blankBehind]
  exact behindNext

theorem steps_operations {operations : List Operation} {nesting : Nesting}
    (room : nesting.HasRoom (operations.flatMap Operation.print))
    (inDefault : nesting.inDefault = true)
    (behindLiteral : nesting.previous.any isIdentifierChar = true) :
    ∃ angles previous,
      nesting.steps (operations.flatMap Operation.print) = { nesting with angles, previous } ∧
        angles.toNat = operations.foldl Operation.opened nesting.angles.toNat := by
  induction operations generalizing nesting with
  | nil => exact ⟨nesting.angles, nesting.previous, rfl, rfl⟩
  | cons operation others induction =>
      rw [List.flatMap_cons] at room
      obtain ⟨angles, last, letter, leads, counted⟩ :=
        operation.steps_print room.left_of_append inDefault behindLiteral
      have roomBehind := room.steps_of_append
      rw [leads] at roomBehind
      obtain ⟨final, previous, leadsOn, countedOn⟩ := induction roomBehind inDefault letter
      refine ⟨final, previous, ?_, ?_⟩
      · simp [leads, leadsOn]
      · rw [countedOn, counted, List.foldl_cons]

/-- In a default value, an expression changes the number of open angle brackets and nothing else. -/
theorem Expression.steps_print (expression : Expression) {nesting : Nesting}
    (room : nesting.HasRoom expression.print) (inDefault : nesting.inDefault = true) :
    ∃ angles previous, nesting.steps expression.print = { nesting with angles, previous } ∧
      angles.toNat = expression.opened nesting.angles.toNat := by
  obtain ⟨last, letter, leads⟩ := expression.isLiteral.steps nesting
  have roomBehind := room.steps_of_append
  rw [leads] at roomBehind
  rw [print, Nesting.steps_append, leads]
  exact steps_operations roomBehind inDefault letter

/-- A type without template arguments: an angle bracket stands nowhere in it, and no comma and no
equals sign outside of its brackets. -/
structure IsPlainType (type : List Char) : Prop where
  nested : Nested isTypeChar type
  start : type.head?.any isBlank = false
  named : TypeText.normalForm type ≠ []

theorem IsPlainType.levels {type : List Char} (isPlainType : IsPlainType type) (nesting : Nesting) :
    nesting.Levels isTypeChar type :=
  Nesting.levels_of_nested isPlainType.nested (by decide) (Or.inr (Or.inr rfl))

theorem IsPlainType.isLegible {type : List Char} (isPlainType : IsPlainType type) :
    IsLegible type := by
  refine ⟨fun nesting _ => isPlainType.levels nesting, ?_, isPlainType.named⟩
  have start := isPlainType.start
  cases type with
  | nil => exact (isPlainType.named rfl).elim
  | cons first rest => exact ⟨first, rest, rfl, start⟩

/-- A default value with the blanks around its equals sign. -/
structure Default where
  before : List Char
  behind : List Char
  value : Expression
  blank : ∀ character ∈ before ++ behind, isBlank character = true

def Default.print (default : Default) : List Char :=
  default.before ++ '=' :: (default.behind ++ default.value.print)

/-- A parameter of a plain type, with an expression for a default value or without. -/
structure PlainParameter where
  before : List Char
  type : List Char
  declarator : Declarator
  default : Option Default
  behind : List Char
  blank : ∀ character ∈ before ++ behind, isBlank character = true
  isPlainType : IsPlainType type

namespace PlainParameter

def printDefault (parameter : PlainParameter) : List Char :=
  match parameter.default with
  | none => []
  | some default => default.print

def print (parameter : PlainParameter) : List Char :=
  parameter.before ++ (parameter.type ++ ' ' :: parameter.declarator.print ++
    parameter.printDefault ++ parameter.behind)

/-- How many angle brackets the default value of a parameter seems to leave open. -/
def leftOpen (parameter : PlainParameter) : Nat :=
  match parameter.default with
  | none => 0
  | some default => default.value.opened 0

/-- Whether a blank stands in front of every operator that might open a bracket. -/
def IsSpaced (parameter : PlainParameter) : Prop :=
  ∀ default ∈ parameter.default, ∀ operation ∈ default.value.operations,
    operation.operator.opens = true → operation.before ≠ []

end PlainParameter

theorem Operation.comma_not_mem_print (operation : Operation) : ',' ∉ operation.print := by
  obtain ⟨blankBefore, blankBehind⟩ := List.forall_mem_append.mp operation.blank
  have inOperator : ',' ∉ operation.operator.print := by
    cases operation.operator <;> decide
  have inLiteral : ',' ∉ operation.literal := fun member =>
    absurd (operation.isLiteral.digits _ member) (by decide)
  simp only [print, List.mem_append, not_or]
  exact ⟨not_mem_of_blanks blankBefore (by decide), inOperator,
    not_mem_of_blanks blankBehind (by decide), inLiteral⟩

theorem Expression.comma_not_mem_print (expression : Expression) : ',' ∉ expression.print := by
  have inLiteral : ',' ∉ expression.literal := fun member =>
    absurd (expression.isLiteral.digits _ member) (by decide)
  simp only [print, List.mem_append, List.mem_flatMap, not_or, not_exists, not_and]
  exact ⟨inLiteral, fun operation _ => operation.comma_not_mem_print⟩

namespace PlainParameter

variable (parameter : PlainParameter)

theorem comma_not_mem_printDefault : ',' ∉ parameter.printDefault := by
  unfold printDefault
  cases parameter.default with
  | none => simp
  | some default =>
      obtain ⟨blankBefore, blankBehind⟩ := List.forall_mem_append.mp default.blank
      simp only [Default.print, List.mem_append, List.mem_cons, not_or]
      exact ⟨not_mem_of_blanks blankBefore (by decide), by decide,
        not_mem_of_blanks blankBehind (by decide), default.value.comma_not_mem_print⟩

theorem levels_front (nesting : Nesting) : nesting.Levels isTypeChar
    (parameter.before ++ (parameter.type ++ ' ' :: parameter.declarator.print)) := by
  obtain ⟨blankBefore, _⟩ := List.forall_mem_append.mp parameter.blank
  have before : nesting.Levels isTypeChar parameter.before :=
    levels_of_blanks blankBefore fun _ member => isTypeChar_of_isBlank (blankBefore _ member)
  exact before.append fun _ => parameter.declarator.levels_behind (parameter.isPlainType.levels _)

theorem print_eq : parameter.print =
    parameter.before ++ (parameter.type ++ ' ' :: parameter.declarator.print) ++
      (parameter.printDefault ++ parameter.behind) := by
  simp [print]

theorem hides_print (nesting : Nesting) (room : nesting.HasRoom parameter.print) :
    nesting.Hides ',' parameter.print := by
  obtain ⟨_, blankBehind⟩ := List.forall_mem_append.mp parameter.blank
  rw [print_eq] at room ⊢
  refine Nesting.hides_append.mpr
    ⟨(parameter.levels_front nesting).hides room.left_of_append ',' fun _ => rfl, ?_⟩
  refine Nesting.hides_of_not_mem ?_
  rw [List.mem_append, not_or]
  exact ⟨parameter.comma_not_mem_printDefault, not_mem_of_blanks blankBehind (by decide)⟩

theorem isTop_steps_default (few : HasFewBrackets parameter.printDefault)
    (previous : Option Char) :
    (Nesting.steps { previous } (parameter.printDefault ++ parameter.behind)).isTop =
      decide (parameter.leftOpen = 0) := by
  obtain ⟨_, blankBehind⟩ := List.forall_mem_append.mp parameter.blank
  rw [Nesting.steps_append, steps_of_blanks blankBehind, printDefault, leftOpen]
  rw [printDefault] at few
  cases value : parameter.default with
  | none => rfl
  | some default =>
      rw [value] at few
      obtain ⟨blankBefore, blankInside⟩ := List.forall_mem_append.mp default.blank
      have room : Nesting.HasRoom
          { inDefault := true, previous := default.behind.getLast?.or (some '=') }
          default.value.print :=
        Nesting.hasRoom_of_isTop rfl few.of_append.2.of_cons.of_append.2
      obtain ⟨angles, last, leads, counted⟩ := default.value.steps_print room rfl
      have begins : ∀ previous, Nesting.step { previous } '=' =
          { inDefault := true, previous := some '=' } := fun _ => rfl
      have none : angles = 0 ↔ default.value.opened 0 = 0 := by
        rw [← UInt32.toNat_inj, counted]
        rfl
      simp only [Default.print]
      rw [Nesting.steps_append, steps_of_blanks blankBefore, Nesting.steps_cons, begins,
        Nesting.steps_append, steps_of_blanks blankInside, leads]
      simp [Nesting.isTop, none]

theorem isTop_steps_print (few : HasFewBrackets parameter.print) :
    (Nesting.steps {} parameter.print).isTop = decide (parameter.leftOpen = 0) := by
  rw [print_eq] at few ⊢
  obtain ⟨previous, leads⟩ :=
    (parameter.levels_front {}).back (Nesting.hasRoom_start few.of_append.1)
  rw [Nesting.steps_append, leads]
  exact parameter.isTop_steps_default few.of_append.2.of_append.1 previous

theorem foldl_opened_of_spaced {operations : List Operation}
    (spaced : ∀ operation ∈ operations, operation.operator.opens = true → operation.before ≠ []) :
    operations.foldl Operation.opened 0 = 0 := by
  induction operations with
  | nil => rfl
  | cons operation others induction =>
      obtain ⟨first, rest⟩ := List.forall_mem_cons.mp spaced
      have stays : Operation.opened 0 operation = 0 := by
        rw [Operation.opened, Operator.opened]
        cases opens : operation.operator.opens with
        | false => simp
        | true => simp [first opens]
      rw [List.foldl_cons, stays]
      exact induction rest

theorem leftOpen_of_isSpaced (spaced : parameter.IsSpaced) : parameter.leftOpen = 0 := by
  unfold leftOpen
  cases shape : parameter.default with
  | none => rfl
  | some default => exact foldl_opened_of_spaced (spaced default shape)

theorem trim_print_ne_void : trim parameter.print ≠ "void".toList := by
  obtain ⟨blankBefore, _⟩ := List.forall_mem_append.mp parameter.blank
  rw [print, List.append_assoc (parameter.type ++ ' ' :: parameter.declarator.print)]
  exact parameter.isPlainType.isLegible.trim_declaration_ne_void parameter.declarator blankBefore

theorem parameterType?_print (few : HasFewBrackets parameter.print) :
    parameterType? parameter.print = some (TypeText.normalForm parameter.type) := by
  obtain ⟨blankBefore, blankBehind⟩ := List.forall_mem_append.mp parameter.blank
  have declared : ∀ {blanks default : List Char}, (∀ character ∈ blanks, isBlank character = true) →
      default = [] ∨ default.head? = some '=' →
        HasFewBrackets
            (parameter.type ++ ' ' :: parameter.declarator.print ++ (blanks ++ default)) →
          parameterType?
              (parameter.type ++ ' ' :: parameter.declarator.print ++ (blanks ++ default)) =
            some (TypeText.normalForm parameter.type) :=
    fun blank isDefault few => parameter.isPlainType.isLegible.parameterType?_declaration
      parameter.declarator blank isDefault few
  rw [print] at few
  have fewDeclared := few.of_append.2.of_append.1
  rw [print, parameterType?_between blankBefore blankBehind]
  rw [printDefault] at fewDeclared ⊢
  cases value : parameter.default with
  | none =>
      rw [value] at fewDeclared
      exact @declared [] [] (by simp) (Or.inl rfl) fewDeclared
  | some default =>
      rw [value] at fewDeclared
      obtain ⟨blankInFront, _⟩ := List.forall_mem_append.mp default.blank
      exact declared blankInFront (Or.inr rfl) fewDeclared

end PlainParameter

/-- The text of a parameter list. -/
def printPlain (parameters : List PlainParameter) : List Char :=
  commaSeparated (parameters.map PlainParameter.print)

section

variable {parameters : List PlainParameter}

theorem hides_of_mem_print : ∀ piece ∈ parameters.map PlainParameter.print,
    ∀ nesting : Nesting, nesting.HasRoom piece → nesting.Hides ',' piece :=
  List.forall_mem_map.mpr fun parameter _ => parameter.hides_print

theorem trim_ne_void_of_mem_print :
    ∀ piece ∈ parameters.map PlainParameter.print, trim piece ≠ "void".toList :=
  List.forall_mem_map.mpr fun parameter _ => parameter.trim_print_ne_void

theorem hasFewBrackets_of_mem_printPlain (few : HasFewBrackets (printPlain parameters)) :
    ∀ parameter ∈ parameters, HasFewBrackets parameter.print :=
  List.forall_mem_map.mp (hasFewBrackets_of_mem few)

/-- A default value that leaves a bracket open costs a type: fewer pieces than parameters have
fewer types. -/
theorem length_types_printPlain_lt (few : HasFewBrackets (printPlain parameters))
    {parameter : PlainParameter} (member : parameter ∈ parameters.dropLast)
    (opened : parameter.leftOpen ≠ 0) :
    (types (printPlain parameters)).length < parameters.length := by
  have nonempty : parameters.map PlainParameter.print ≠ [] := by
    rintro empty
    rw [List.map_eq_nil_iff.mp empty] at member
    cases member
  have fewHere :=
    hasFewBrackets_of_mem_printPlain few parameter (List.dropLast_subset _ member)
  have unclosed : (Nesting.steps {} parameter.print).isTop = false := by
    rw [parameter.isTop_steps_print fewHere, decide_eq_false opened]
  have listed : parameter.print ∈ (parameters.map PlainParameter.print).dropLast := by
    rw [← List.map_dropLast]
    exact List.mem_map_of_mem member
  have fewer := length_splitTop_lt nonempty hides_of_mem_print few listed unclosed
  have atMost := List.length_filterMap_le parameterType?
    (splitTop ',' (commaSeparated (parameters.map PlainParameter.print)))
  rw [printPlain, types_eq_of_ne_void (trim_commaSeparated_ne_void trim_ne_void_of_mem_print)]
  rw [List.length_map] at fewer
  exact Nat.lt_of_le_of_lt atMost fewer

theorem types_printPlain_of_closed (few : HasFewBrackets (printPlain parameters))
    (closed : ∀ parameter ∈ parameters.dropLast, parameter.leftOpen = 0) :
    types (printPlain parameters) =
      parameters.map fun parameter => TypeText.normalForm parameter.type := by
  have fewInEach := hasFewBrackets_of_mem_printPlain few
  have hide : ∀ piece ∈ parameters.map PlainParameter.print, Nesting.Hides ',' {} piece :=
    List.forall_mem_map.mpr fun parameter listed =>
      parameter.hides_print {} (Nesting.hasRoom_start (fewInEach parameter listed))
  have close : ∀ piece ∈ (parameters.map PlainParameter.print).dropLast,
      (Nesting.steps {} piece).isTop = true := by
    rw [← List.map_dropLast]
    refine List.forall_mem_map.mpr fun parameter member => ?_
    rw [parameter.isTop_steps_print (fewInEach parameter (List.dropLast_subset _ member)),
      closed parameter member]
    rfl
  rw [printPlain, types_commaSeparated hide close trim_ne_void_of_mem_print, List.filterMap_map,
    ← List.filterMap_eq_map]
  exact List.filterMap_congr fun parameter listed =>
    parameter.parameterType?_print (fewInEach parameter listed)

theorem types_printPlain (few : HasFewBrackets (printPlain parameters)) :
    types (printPlain parameters) =
        (parameters.map fun parameter => TypeText.normalForm parameter.type) ↔
      ∀ parameter ∈ parameters.dropLast, parameter.leftOpen = 0 := by
  refine ⟨fun read parameter member => ?_, types_printPlain_of_closed few⟩
  by_contra opened
  have fewer := length_types_printPlain_lt few member opened
  rw [read, List.length_map] at fewer
  exact Nat.lt_irrefl _ fewer

/-- A list of parameters with fewer than 2^32 opening brackets is read as the normal forms of their
types exactly if no default value, except for that of the last parameter, leaves a bracket open.
That is so where a blank stands in front of every operator that starts with `<`. -/
theorem parse_operators (few : HasFewBrackets (printPlain parameters)) :
    (parse (String.ofList (printPlain parameters)) =
        (parameters.map fun parameter => TypeText.normalize (String.ofList parameter.type)) ↔
      ∀ parameter ∈ parameters.dropLast, parameter.leftOpen = 0) ∧
    ((∀ parameter ∈ parameters, parameter.IsSpaced) →
      parse (String.ofList (printPlain parameters)) =
        parameters.map fun parameter => TypeText.normalize (String.ofList parameter.type)) := by
  have types_eq : (parameters.map fun parameter => TypeText.normalize (String.ofList parameter.type)) =
      (parameters.map fun parameter => TypeText.normalForm parameter.type).map String.ofList := by
    simp [TypeText.normalize]
  have reads : parse (String.ofList (printPlain parameters)) =
        (parameters.map fun parameter => TypeText.normalize (String.ofList parameter.type)) ↔
      ∀ parameter ∈ parameters.dropLast, parameter.leftOpen = 0 := by
    rw [← types_printPlain few, parse, String.toList_ofList, types_eq,
      List.map_inj_right fun _ _ => String.ofList_inj.mp]
  refine ⟨reads, fun spaced => reads.mpr fun parameter member => ?_⟩
  exact parameter.leftOpen_of_isSpaced (spaced parameter (List.dropLast_subset _ member))

end

/-- A parameter of type `bool`. -/
def PlainParameter.flag (before behind : List Char) (declarator : Declarator)
    (default : Option Default) (blank : ∀ character ∈ before ++ behind, isBlank character = true) :
    PlainParameter where
  before := before
  type := "bool".toList
  declarator := declarator
  default := default
  behind := behind
  blank := blank
  isPlainType := ⟨.character rfl rfl (.character rfl rfl (.character rfl rfl
    (.character rfl rfl (.nil _)))), rfl, by decide⟩

/-- A value `0` with one operator and a literal of one digit behind it. -/
def Default.compared (before behind : List Char) (operator : Operator) (digit : Char)
    (blank : ∀ character ∈ before ++ behind, isBlank character = true)
    (isDigit : digit.isDigit = true) : Default where
  before := [' ']
  behind := [' ']
  value := ⟨['0'], [⟨before, operator, behind, [digit], blank, by simp, by simpa using isDigit⟩],
    by simp, List.all_eq_true.mp (by decide)⟩
  blank := List.all_eq_true.mp (by decide)

@[simp] theorem PlainParameter.normalize_type_flag {before behind : List Char}
    {declarator : Declarator} {default : Option Default}
    {blank : ∀ character ∈ before ++ behind, isBlank character = true} :
    TypeText.normalize
      (String.ofList (flag before behind declarator default blank).type) = "bool" := by
  change TypeText.normalize (String.ofList "bool".toList) = "bool"
  decide

theorem isParameterName_letters : IsParameterName ['a'] ∧ IsParameterName ['b'] :=
  ⟨⟨by decide, by decide, by decide⟩, by decide, by decide, by decide⟩

/-- With a blank in front of it a comparison keeps the comma behind it. -/
theorem parse_operators_flags :
    parse (String.ofList "bool a = 0 <1, bool b = 0<1".toList) = ["bool", "bool"] ∧
      parse (String.ofList "bool a = 0 <=7, bool b".toList) = ["bool", "bool"] := by
  obtain ⟨isA, isB⟩ := isParameterName_letters
  have blank : ∀ character ∈ [' '], isBlank character = true := List.forall_mem_singleton.mpr rfl
  have kept := (@parse_operators
    [.flag [] [] ⟨[], ['a'], [], by simp, isA, by simp⟩
        (some (.compared [' '] [] .less '1' blank rfl)) (by simp),
      .flag [' '] [] ⟨[], ['b'], [], by simp, isB, by simp⟩
        (some (.compared [] [] .less '1' (by simp) rfl)) blank]
    (show HasFewBrackets "bool a = 0 <1, bool b = 0<1".toList by decide)).1.mpr
    (List.forall_mem_singleton.mpr rfl)
  have spaced := (@parse_operators
    [.flag [] [] ⟨[], ['a'], [], by simp, isA, by simp⟩
        (some (.compared [' '] [] .atMost '7' blank rfl)) (by simp),
      .flag [' '] [] ⟨[], ['b'], [], by simp, isB, by simp⟩ none blank]
    (show HasFewBrackets "bool a = 0 <=7, bool b".toList by decide)).2
    (by simp [PlainParameter.IsSpaced, PlainParameter.flag, Default.compared])
  simp only [List.map_cons, List.map_nil, PlainParameter.normalize_type_flag] at kept spaced
  exact ⟨kept, spaced⟩

/-- A comparison without blanks takes the parameter behind it in. -/
theorem parse_operators_swallow :
    parse "bool a = 0<1, bool b" = ["bool"] ∧
      ¬ ∀ parameters : List PlainParameter, parse (String.ofList (printPlain parameters)) =
        parameters.map fun parameter => TypeText.normalize (String.ofList parameter.type) := by
  refine ⟨by decide, fun read => ?_⟩
  have swallowed := read [
    .flag [] [] ⟨[], ['a'], [], by simp, isParameterName_letters.1, by simp⟩
      (some (.compared [] [] .less '1' (by simp) rfl)) (by simp),
    .flag [' '] [] ⟨[], ['b'], [], by simp, isParameterName_letters.2, by simp⟩ none
      (List.forall_mem_singleton.mpr rfl)]
  exact absurd swallowed (by decide)

end ScriptRegistrar.Written
