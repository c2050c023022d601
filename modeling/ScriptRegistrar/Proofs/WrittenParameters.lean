import ScriptRegistrar.Proofs.WrittenTypes

/-!
# Parameters as they are written

A parameter is a type, a space and a declarator, with a default value or without and with blanks
around it.  The three scans that read it agree on where its brackets are.  No comma stands outside
of them, so that it is one piece of its list; the first equals sign outside of them begins the
default value; and the last blank outside of them, before that sign, is the space between the type
and the declarator.
-/

namespace ScriptRegistrar.Written

open Text ParameterList

/-- A name that a parameter may have: no word of a type. -/
structure IsParameterName (name : List Char) : Prop where
  identifier : isIdentifier name = true
  notBuiltin : name ∉ builtinTypeWords
  notQualifier : name ≠ TypeText.qualifier

/-- The name of a parameter, with the signs in front of it and the sizes of an array behind it. -/
structure Declarator where
  signs : List Char
  name : List Char
  sizes : List (List Char)
  areSigns : ∀ sign ∈ signs, TypeText.isReferenceSign sign = true
  isName : IsParameterName name
  unbracketed : ∀ size ∈ sizes, ∀ character ∈ size, isUnbracketed character = true

def arraySuffix (size : List Char) : List Char :=
  '[' :: (size ++ [']'])

@[simp] theorem getLast?_arraySuffix (size : List Char) :
    (arraySuffix size).getLast? = some ']' := by
  rw [arraySuffix, ← List.cons_append, List.getLast?_concat]

def Declarator.print (declarator : Declarator) : List Char :=
  declarator.signs ++ (declarator.name ++ declarator.sizes.flatMap arraySuffix)

structure Parameter where
  before : List Char
  type : List Char
  declarator : Declarator
  value : Option (List Char)
  behind : List Char
  blank : ∀ character ∈ before ++ behind, isBlank character = true
  isType : IsType type
  isNested : ∀ text ∈ value, Nested (· ≠ ',') text

namespace Parameter

/-- A parameter without its default value and the blanks around it. -/
def declaration (parameter : Parameter) : List Char :=
  parameter.type ++ ' ' :: parameter.declarator.print

def default (parameter : Parameter) : List Char :=
  match parameter.value with
  | none => []
  | some text => ' ' :: '=' :: ' ' :: text

def print (parameter : Parameter) : List Char :=
  parameter.before ++ (parameter.declaration ++ parameter.default ++ parameter.behind)

end Parameter

/-- What a declarator may have outside of its brackets. -/
def isDeclaratorChar (character : Char) : Bool :=
  !isBlank character && isTypeChar character

namespace Declarator

theorem isDeclaratorChar_of_mem_name (declarator : Declarator) :
    ∀ character ∈ declarator.name, isDeclaratorChar character = true := by
  intro character member
  have letter := isIdentifierChar_of_mem declarator.isName.identifier member
  simp [isDeclaratorChar, isBlank_of_isIdentifierChar letter, isTypeChar_of_isIdentifierChar letter]

theorem facts_of_mem_signs (declarator : Declarator) : ∀ sign ∈ declarator.signs,
    Nesting.isPlain sign = true ∧ isDeclaratorChar sign = true := by
  intro sign member
  rcases TypeText.isReferenceSign_iff.mp (declarator.areSigns sign member) with rfl | rfl <;> decide

theorem levels_sizes {sizes : List (List Char)}
    (unbracketed : ∀ size ∈ sizes, ∀ character ∈ size, isUnbracketed character = true)
    (nesting : Nesting) : nesting.Levels isDeclaratorChar (sizes.flatMap arraySuffix) := by
  induction sizes generalizing nesting with
  | nil => exact .nil _ _
  | cons size others induction =>
      obtain ⟨first, rest⟩ := List.forall_mem_cons.mp unbracketed
      have suffix : nesting.Levels isDeclaratorChar (arraySuffix size) :=
        Nesting.levels_brackets (by decide) (by decide) fun _ inner =>
          Nesting.levels_of_nested (.of_isUnbracketed first) (by simp)
            (Or.inr (Or.inl inner))
      exact suffix.append fun _ => induction rest _

theorem levels_print (declarator : Declarator) (nesting : Nesting) :
    nesting.Levels isDeclaratorChar declarator.print := by
  have signs : nesting.Levels isDeclaratorChar declarator.signs :=
    .of_isPlain (fun _ member => (declarator.facts_of_mem_signs _ member).1)
      fun _ member => (declarator.facts_of_mem_signs _ member).2
  refine signs.append fun _ => Nesting.Levels.append ?_ fun _ =>
    levels_sizes declarator.unbracketed _
  exact levels_of_letters (fun _ => isIdentifierChar_of_mem declarator.isName.identifier)
    declarator.isDeclaratorChar_of_mem_name

theorem withoutArray_print (declarator : Declarator) :
    withoutArray (declarator.name ++ declarator.sizes.flatMap arraySuffix) = declarator.name := by
  rcases List.eq_nil_or_concat declarator.sizes with noArray | ⟨front, last, array⟩
  · rw [noArray, List.flatMap_nil, List.append_nil, withoutArray, if_neg]
    exact fun ends =>
      not_mem_of_isIdentifier declarator.isName.identifier rfl (List.mem_of_getLast? ends)
  · have ends : (declarator.name ++ declarator.sizes.flatMap arraySuffix).getLast? =
        some ']' := by
      simp [array]
    obtain ⟨behind, opens⟩ : ∃ behind, declarator.sizes.flatMap arraySuffix = '[' :: behind := by
      cases sizes : declarator.sizes with
      | nil => simp [sizes] at array
      | cons first others => exact ⟨_, List.flatMap_cons⟩
    rw [withoutArray, if_pos ends, opens, List.takeWhile_append_of_pos]
    · simp
    · intro character member
      rw [decide_eq_true_eq]
      rintro rfl
      exact not_mem_of_isIdentifier declarator.isName.identifier rfl member

@[simp] theorem namesParameter_print (declarator : Declarator) :
    namesParameter declarator.print = true := by
  obtain ⟨first, rest, shape, start, _⟩ := isIdentifier_iff.mp declarator.isName.identifier
  have keeps : TypeText.isReferenceSign first = false :=
    TypeText.isReferenceSign_of_isIdentifierChar (isIdentifierChar_of_isIdentifierStart start)
  have behindSigns : declarator.print.dropWhile TypeText.isReferenceSign =
      declarator.name ++ declarator.sizes.flatMap arraySuffix := by
    rw [print, List.dropWhile_append_of_pos declarator.areSigns, shape, List.cons_append,
      List.dropWhile_cons_of_neg (by simp [keeps])]
  rw [namesParameter, behindSigns, withoutArray_print]
  simp [declarator.isName.identifier, declarator.isName.notBuiltin,
    declarator.isName.notQualifier]

theorem exists_mem_name (declarator : Declarator) :
    ∃ character ∈ declarator.name, isBlank character = false := by
  obtain ⟨first, rest, shape, start, _⟩ := isIdentifier_iff.mp declarator.isName.identifier
  refine ⟨first, by simp [shape], ?_⟩
  exact isBlank_of_isIdentifierChar (isIdentifierChar_of_isIdentifierStart start)

theorem print_ne_nil (declarator : Declarator) : declarator.print ≠ [] := by
  obtain ⟨_, member, _⟩ := declarator.exists_mem_name
  exact List.ne_nil_of_mem (List.mem_append_right _ (List.mem_append_left _ member))

theorem isTrimmed_print (declarator : Declarator) : IsTrimmed declarator.print := by
  have solid : ∀ character ∈ declarator.signs ++ declarator.name, isBlank character = false := by
    intro character member
    have free : isDeclaratorChar character = true := by
      rcases List.mem_append.mp member with sign | letter
      · exact (declarator.facts_of_mem_signs character sign).2
      · exact declarator.isDeclaratorChar_of_mem_name character letter
    simp only [isDeclaratorChar, Bool.and_eq_true, Bool.not_eq_true'] at free
    exact free.1
  have named := isTrimmed_of_no_blank solid
  have nonempty : declarator.signs ++ declarator.name ≠ [] := by
    obtain ⟨_, member, _⟩ := declarator.exists_mem_name
    exact List.append_ne_nil_of_right_ne_nil _ (List.ne_nil_of_mem member)
  rw [print, ← List.append_assoc]
  rcases List.eq_nil_or_concat declarator.sizes with noArray | ⟨front, last, array⟩
  · rwa [noArray, List.flatMap_nil, List.append_nil]
  · have sizes : declarator.sizes.flatMap arraySuffix =
        front.flatMap arraySuffix ++ arraySuffix last := by
      simp [array]
    rw [sizes]
    refine isTrimmed_append _ nonempty (by simp [arraySuffix]) named.first ?_
    rw [getLast?_arraySuffix]
    rfl

end Declarator

theorem Declarator.levels_behind (declarator : Declarator) {type : List Char} {nesting : Nesting}
    (levels : nesting.Levels isTypeChar type) :
    nesting.Levels isTypeChar (type ++ ' ' :: declarator.print) := by
  have space : ∀ nesting : Nesting, nesting.Levels isTypeChar [' '] :=
    fun _ => .of_isPlain (List.forall_mem_singleton.mpr rfl) (List.forall_mem_singleton.mpr rfl)
  have declared : ∀ nesting : Nesting, nesting.Levels isTypeChar declarator.print :=
    fun nesting => (declarator.levels_print nesting).mono fun _ free =>
      (Bool.and_eq_true_iff.mp free).2
  exact levels.append fun _ => (space _).append fun _ => declared _

/-- What the scans of a parameter rely on in a type. -/
structure IsLegible (type : List Char) : Prop where
  /-- It closes the brackets it opens, with no comma and no equals sign outside of them. -/
  levels : ∀ nesting : Nesting, nesting.inDefault = false → nesting.Levels isTypeChar type
  /-- It does not start with a blank. -/
  start : ∃ first rest, type = first :: rest ∧ isBlank first = false
  /-- Something is left of it in its normal form. -/
  named : TypeText.normalForm type ≠ []

theorem IsType.isLegible {type : List Char} (isType : IsType type) : IsLegible type :=
  ⟨fun _ => levels_of_isType isType, exists_cons_of_isType isType,
    normalForm_ne_nil_of_isType isType⟩

namespace IsLegible

variable {type : List Char} (legible : IsLegible type) (declarator : Declarator)

include legible

theorem levels_declaration {nesting : Nesting} (inType : nesting.inDefault = false) :
    nesting.Levels isTypeChar (type ++ ' ' :: declarator.print) :=
  declarator.levels_behind (legible.levels nesting inType)

theorem typePart_declaration (few : HasFewBrackets (type ++ ' ' :: declarator.print)) :
    typePart (type ++ ' ' :: declarator.print) = type := by
  have room := Nesting.hasRoom_start few
  have top : (Nesting.steps {} type).isTop = true :=
    (legible.levels {} rfl).isTop_steps room.left_of_append rfl
  have roomBehind : (Nesting.steps {} (type ++ [' '])).HasRoom declarator.print := by
    rw [Nesting.steps_append]
    exact room.steps_of_append.step_of_cons
  have hides : ∀ blank, isBlank blank = true →
      (Nesting.steps {} (type ++ [' '])).Hides blank declarator.print :=
    fun blank isBlank => (declarator.levels_print _).hides roomBehind blank fun _ => by
      simp [isDeclaratorChar, isBlank]
  have split := lastTopBlank?_append_of_hides rfl top hides
  have token : trim (' ' :: declarator.print) = declarator.print := by
    simpa using @trim_surrounded [' '] _ [] declarator.isTrimmed_print
      (List.forall_mem_singleton.mpr rfl) (by simp)
  rw [typePart, split]
  simp [token, legible.named]

theorem isTrimmed_declaration : IsTrimmed (type ++ ' ' :: declarator.print) := by
  obtain ⟨first, rest, shape, solid⟩ := legible.start
  rw [← List.singleton_append]
  refine isTrimmed_append _ (by simp [shape]) declarator.print_ne_nil ?_
    declarator.isTrimmed_print.last
  rw [shape]
  exact solid

/-- Behind a declaration an equals sign, with blanks in front or without, begins the default value. -/
theorem parameterType?_declaration {blanks default : List Char}
    (blank : ∀ character ∈ blanks, isBlank character = true)
    (isDefault : default = [] ∨ default.head? = some '=')
    (few : HasFewBrackets (type ++ ' ' :: declarator.print ++ (blanks ++ default))) :
    parameterType? (type ++ ' ' :: declarator.print ++ (blanks ++ default)) =
      some (TypeText.normalForm type) := by
  rw [← List.append_assoc] at few
  have room := Nesting.hasRoom_start few.of_append.1
  have levels := (@levels_declaration _ legible declarator {} rfl).append fun previous =>
    @levels_of_blanks isTypeChar { previous } _ blank fun _ member =>
      isTypeChar_of_isBlank (blank _ member)
  obtain ⟨previous, leads⟩ := levels.back room
  have noMore : beforeTop '=' { previous } default = [] := by
    cases default with
    | nil => rfl
    | cons next rest =>
        obtain rfl : next = '=' := by simpa using isDefault
        rfl
  have declared : trim (beforeTop '=' {} (type ++ ' ' :: declarator.print ++ (blanks ++ default))) =
      type ++ ' ' :: declarator.print := by
    rw [← List.append_assoc, beforeTop_append (levels.hides room '=' fun _ => rfl), leads, noMore,
      List.append_nil]
    exact @trim_surrounded [] _ _ (legible.isTrimmed_declaration declarator) (by simp) blank
  rw [parameterType?, declared]
  split
  · rename_i empty
    simp at empty
  · rw [legible.typePart_declaration declarator few.of_append.1.of_append.1]

/-- A declaration has a blank between its type and its name, so that it is no lone `void`. -/
theorem trim_declaration_ne_void {before behind : List Char}
    (blankBefore : ∀ character ∈ before, isBlank character = true) :
    trim (before ++ (type ++ ' ' :: declarator.print ++ behind)) ≠ "void".toList := by
  obtain ⟨first, rest, shape, solid⟩ := legible.start
  obtain ⟨letter, member, letterSolid⟩ := declarator.exists_mem_name
  have inside : letter ∈ declarator.print :=
    List.mem_append_right _ (List.mem_append_left _ member)
  have space : ' ' ∈ trim (before ++ (type ++ ' ' :: declarator.print ++ behind)) := by
    have trimmedBefore := trim_between (type ++ ' ' :: declarator.print ++ behind) blankBefore
      (List.forall_mem_nil _)
    rw [List.append_nil] at trimmedBefore
    rw [trimmedBefore, List.append_assoc, List.cons_append,
      trim_append_cons_append ' ' ⟨first, by simp [shape], solid⟩
        ⟨letter, List.mem_append_left _ inside, letterSolid⟩]
    simp
  intro isVoid
  rw [isVoid] at space
  exact absurd space (by decide)

end IsLegible

namespace Parameter

theorem levels_default (parameter : Parameter) (few : HasFewBrackets parameter.default)
    (previous : Option Char) : Nesting.Hides ',' { previous } parameter.default ∧
      (Nesting.steps { previous } parameter.default).isTop = true := by
  unfold default at few ⊢
  cases value : parameter.value with
  | none => exact ⟨trivial, rfl⟩
  | some text =>
      rw [value] at few
      have room : Nesting.HasRoom { inDefault := true, previous := some ' ' } text :=
        Nesting.hasRoom_of_isTop rfl few.of_cons.of_cons.of_cons
      have nested : Nested (· ≠ ',') text := parameter.isNested text value
      have levels : Nesting.Levels (· ≠ ',') { inDefault := true, previous := some ' ' } text :=
        Nesting.levels_of_nested nested (by decide) (Or.inl rfl)
      refine ⟨⟨by simp, by simp, by simp, levels.hides room ',' fun _ => rfl⟩, ?_⟩
      exact levels.isTop_steps room rfl

theorem isPiece_print (parameter : Parameter) (few : HasFewBrackets parameter.print) :
    IsPiece parameter.print := by
  obtain ⟨blankBefore, blankBehind⟩ := List.forall_mem_append.mp parameter.blank
  have before : Nesting.Levels isTypeChar {} parameter.before :=
    levels_of_blanks blankBefore fun _ blank => isTypeChar_of_isBlank (blankBefore _ blank)
  have start : Nesting.Levels isTypeChar {} (parameter.before ++ parameter.declaration) :=
    before.append fun _ => parameter.isType.isLegible.levels_declaration parameter.declarator rfl
  have behind : ∀ nesting : Nesting, nesting.Levels isTypeChar parameter.behind := fun _ =>
    levels_of_blanks blankBehind fun _ blank => isTypeChar_of_isBlank (blankBehind _ blank)
  have parts : parameter.print = parameter.before ++ parameter.declaration ++
      (parameter.default ++ parameter.behind) := by
    simp [print]
  rw [parts] at few ⊢
  have room := Nesting.hasRoom_start few
  obtain ⟨previous, leads⟩ := start.back room.left_of_append
  have roomBehind := room.steps_of_append
  rw [leads] at roomBehind
  obtain ⟨hides, closed⟩ := parameter.levels_default few.of_append.2.of_append.1 previous
  constructor
  · refine Nesting.hides_append.mpr ⟨start.hides room.left_of_append ',' fun _ => rfl, ?_⟩
    rw [leads]
    exact Nesting.hides_append.mpr
      ⟨hides, (behind _).hides roomBehind.steps_of_append ',' fun _ => rfl⟩
  · rw [Nesting.steps_append, leads, Nesting.steps_append]
    exact (behind _).isTop_steps roomBehind.steps_of_append closed

theorem trim_print_ne_void (parameter : Parameter) : trim parameter.print ≠ "void".toList := by
  obtain ⟨blankBefore, _⟩ := List.forall_mem_append.mp parameter.blank
  rw [print, List.append_assoc parameter.declaration]
  exact parameter.isType.isLegible.trim_declaration_ne_void parameter.declarator blankBefore

/-- A parameter is read as the normal form of its type. -/
theorem parameterType?_print (parameter : Parameter) (few : HasFewBrackets parameter.print) :
    parameterType? parameter.print = some (TypeText.normalForm parameter.type) := by
  obtain ⟨blankBefore, blankBehind⟩ := List.forall_mem_append.mp parameter.blank
  have declared : ∀ {blanks default : List Char}, (∀ character ∈ blanks, isBlank character = true) →
      default = [] ∨ default.head? = some '=' →
        HasFewBrackets (parameter.declaration ++ (blanks ++ default)) →
          parameterType? (parameter.declaration ++ (blanks ++ default)) =
            some (TypeText.normalForm parameter.type) :=
    fun blank isDefault few => parameter.isType.isLegible.parameterType?_declaration
      parameter.declarator blank isDefault few
  rw [print] at few
  have fewDeclared := few.of_append.2.of_append.1
  rw [print, parameterType?_between blankBefore blankBehind]
  rw [default] at fewDeclared ⊢
  cases value : parameter.value with
  | none =>
      rw [value] at fewDeclared
      exact @declared [] [] (by simp) (Or.inl rfl) fewDeclared
  | some text =>
      rw [value] at fewDeclared
      exact @declared [' '] _ (List.forall_mem_singleton.mpr rfl) (Or.inr rfl) fewDeclared

end Parameter

theorem types_commaSeparated_print {parameters : List Parameter}
    (few : HasFewBrackets (commaSeparated (parameters.map Parameter.print))) :
    types (commaSeparated (parameters.map Parameter.print)) =
      parameters.map fun parameter => TypeText.normalForm parameter.type := by
  have fewInEach := List.forall_mem_map.mp (hasFewBrackets_of_mem few)
  have arePieces : ∀ piece ∈ parameters.map Parameter.print, IsPiece piece :=
    List.forall_mem_map.mpr fun parameter listed =>
      parameter.isPiece_print (fewInEach parameter listed)
  have notVoid : ∀ piece ∈ parameters.map Parameter.print, trim piece ≠ "void".toList :=
    List.forall_mem_map.mpr fun parameter _ => parameter.trim_print_ne_void
  have read : (parameters.map Parameter.print).filterMap parameterType? =
      parameters.map fun parameter => TypeText.normalForm parameter.type := by
    rw [List.filterMap_map, ← List.filterMap_eq_map]
    exact List.filterMap_congr fun parameter listed =>
      parameter.parameterType?_print (fewInEach parameter listed)
  rw [types_commaSeparated (fun piece listed => (arePieces piece listed).hides)
    (fun piece listed => (arePieces piece (List.dropLast_subset _ listed)).closed) notVoid, read]

/-- A list of parameters with fewer than 2^32 opening brackets is read as the normal forms of their
types, in order. -/
theorem parse_commaSeparated {parameters : List Parameter}
    (few : HasFewBrackets (commaSeparated (parameters.map Parameter.print))) :
    ParameterList.parse (String.ofList (commaSeparated (parameters.map Parameter.print))) =
      parameters.map fun parameter => TypeText.normalize (String.ofList parameter.type) := by
  rw [parse, String.toList_ofList, types_commaSeparated_print few, List.map_map]
  refine List.map_congr_left fun parameter _ => ?_
  rw [TypeText.normalize, String.toList_ofList]
  rfl

/-- Commas in template arguments, in the size of an array and in a default value separate nothing. -/
theorem parse_commaSeparated_hits :
    ParameterList.parse " const Map<int, Hit *>& const *hits[A, 2] = f(1, 2) ,bool on" =
      ["Map<int,Hit>", "bool"] := by
  have named : ∀ path suffixes, isIdentifier path = true → path ≠ TypeText.qualifier →
      IsSuffixRun suffixes → IsType (leading false ++ (path ++ suffixes)) :=
    fun _ _ identifier notQualifier run => .named false (.name identifier notQualifier) run
  have map : IsType "const Map<int, Hit *>& const".toList :=
    @IsType.template true "Map".toList "& const".toList
      [⟨[], "int".toList, [], by simp⟩, ⟨[' '], "Hit *".toList, [], by simp [isBlank]⟩]
      (.name (by decide) (by decide))
      (by simpa using ⟨named "int".toList [] (by decide) (by decide) .nil,
        named "Hit".toList [' ', '*'] (by decide) (by decide) (.append (.spacedSign rfl) .nil)⟩)
      (.append (.sign rfl) (.append .qualifier .nil))
  have call : Nested (· ≠ ',') "f(1, 2)".toList :=
    .character rfl rfl (@Nested.group _ '(' ')' "1, 2".toList [] (by decide)
      (.of_isUnbracketed (List.all_eq_true.mp (by decide))) (.nil _))
  have few : HasFewBrackets
      " const Map<int, Hit *>& const *hits[A, 2] = f(1, 2) ,bool on".toList := by decide
  have read := @parse_commaSeparated [
    { before := [' '], type := _, isType := map,
      declarator := ⟨['*'], "hits".toList, ["A, 2".toList], List.forall_mem_singleton.mpr rfl,
        ⟨by decide, by decide, by decide⟩,
        List.forall_mem_singleton.mpr (List.all_eq_true.mp (by decide))⟩,
      value := some _, isNested := fun _ member => Option.mem_some.mp member ▸ call,
      behind := [' '], blank := List.all_eq_true.mp (by decide) },
    { before := [], type := _,
      isType := named "bool".toList [] (by decide) (by decide) .nil,
      declarator := ⟨[], "on".toList, [], by simp, ⟨by decide, by decide, by decide⟩, by simp⟩,
      value := none, isNested := by simp, behind := [], blank := by simp }] few
  have normal : TypeText.normalize (String.ofList "const Map<int, Hit *>& const".toList) =
      "Map<int,Hit>" ∧ TypeText.normalize (String.ofList "bool".toList) = "bool" := by decide
  exact read.trans (congrArg₂ (fun first second => [first, second]) normal.1 normal.2)

end ScriptRegistrar.Written
