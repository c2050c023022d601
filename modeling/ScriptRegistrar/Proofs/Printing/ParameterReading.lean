import ScriptRegistrar.Proofs.Printing.ClassModel
import ScriptRegistrar.Proofs.Printing.TypeFacts
import ScriptRegistrar.Proofs.WrittenParameters

/-!
# Reading printed parameters

A printed parameter list is read back as the normal forms of its types.  A printed type is one of
the types that may be written, and a printed parameter one of the parameters, with a space in
front of every parameter but the first.
-/

namespace ScriptRegistrar.Printing

open Text ParameterList

namespace TypeModel

variable {markers : Markers}

theorem ne_const {name : String} (fits : IsTypeName markers name) :
    name.toList ≠ TypeText.qualifier := by
  intro equality
  have same : name = "const" := String.toList_inj.mp equality
  have keyword := fits.keyword (by rw [same]; decide)
  rw [same] at keyword
  exact absurd keyword (by decide)

/-- A printed path is a path. -/
theorem isPath_printPath {name : String} {inner : List String}
    (nameFits : IsTypeName markers name) (innerFit : ∀ next ∈ inner, IsTypeName markers next) :
    Written.IsPath (printPath name inner) := by
  induction inner generalizing name with
  | nil =>
      rw [printPath, List.flatMap_nil, List.append_nil]
      exact .name nameFits.identifier (ne_const nameFits)
  | cons next rest induction =>
      obtain ⟨nextFits, restFit⟩ := List.forall_mem_cons.mp innerFit
      have path := Written.IsPath.inner nameFits.identifier (ne_const nameFits)
        (induction nextFits restFit)
      simpa [printPath] using path

theorem isSuffixRun_signs (signs : List ReferenceSign) :
    Written.IsSuffixRun (signs.map ReferenceSign.character) := by
  induction signs with
  | nil => exact .nil
  | cons sign others induction =>
      have isSign : TypeText.isReferenceSign sign.character = true := by cases sign <;> rfl
      exact .append (.sign isSign) induction

/-- A template argument behind the first one. -/
def further (spaced : Bool) (argument : TypeModel) : Written.Padded where
  before := if spaced then [' '] else []
  text := argument.print
  behind := []
  blank := by cases spaced <;> simp [isBlank]

theorem printFurther_eq (spaced : Bool) (arguments : List TypeModel) :
    printFurther spaced arguments =
      (arguments.map (Written.Padded.print ∘ further spaced)).flatMap (',' :: ·) := by
  induction arguments with
  | nil => rw [printFurther, List.map_nil, List.flatMap_nil]
  | cons argument rest induction =>
      rw [printFurther, induction, List.map_cons, List.flatMap_cons]
      simp [further, Written.Padded.print]

mutual

theorem isType_print : (model : TypeModel) → model.WellFormed markers →
    Written.IsType model.print
  | .named isConst name inner spaced [] signs, fits => by
      obtain ⟨nameFits, innerFit, _⟩ := fits
      rw [print, printArguments]
      exact .named isConst (isPath_printPath nameFits innerFit) (isSuffixRun_signs signs)
  | .named isConst name inner spaced (argument :: rest) signs, fits => by
      obtain ⟨nameFits, innerFit, argumentFits, restFit⟩ := fits
      let first : Written.Padded := ⟨[], argument.print, [], by simp⟩
      have firstPrint : first.print = argument.print := List.append_nil _
      have types : ∀ padded ∈ first :: rest.map (further spaced), Written.IsType padded.text :=
        List.forall_mem_cons.mpr ⟨isType_print argument argumentFits,
          List.forall_mem_map.mpr (isType_of_mem rest restFit)⟩
      have template := Written.IsType.template isConst (isPath_printPath nameFits innerFit) types
        (isSuffixRun_signs signs)
      have pieces : commaSeparated ((first :: rest.map (further spaced)).map Written.Padded.print) =
          argument.print ++ printFurther spaced rest := by
        rw [List.map_cons, commaSeparated_cons, firstPrint, List.map_map, printFurther_eq]
      have text : '<' :: (argument.print ++ (printFurther spaced rest ++ ['>'])) ++
          signs.map ReferenceSign.character = '<' :: (argument.print ++ printFurther spaced rest ++
            '>' :: signs.map ReferenceSign.character) := by
        simp
      rw [print, printArguments, text, ← pieces]
      exact template

theorem isType_of_mem : (arguments : List TypeModel) → AllWellFormed markers arguments →
    ∀ argument ∈ arguments, Written.IsType argument.print
  | [], _ => by simp
  | argument :: rest, fits =>
      List.forall_mem_cons.mpr ⟨isType_print argument fits.1, isType_of_mem rest fits.2⟩

end

theorem head?_print (model : TypeModel) (fits : model.WellFormed markers) :
    model.print.head?.any isIdentifierStart = true := by
  cases model with
  | named isConst name inner spaced arguments signs =>
      obtain ⟨first, others, shape, start, _⟩ := isIdentifier_iff.mp fits.1.identifier
      cases isConst with
      | true => rfl
      | false => simp [print, printPath, shape, start]

end TypeModel

namespace ParameterModel

variable {markers : Markers}

theorem not_isBlank_of_mem_name {name : String} (fits : IsName markers name) :
    ∀ character ∈ name.toList, isBlank character = false :=
  fun _ member => isBlank_of_isIdentifierChar (isIdentifierChar_of_mem fits.identifier member)

theorem isTrimmed_name {name : String} (fits : IsName markers name) : IsTrimmed name.toList :=
  isTrimmed_of_no_blank (not_isBlank_of_mem_name fits)

theorem isTypePart_of_mem_print {parameter : ParameterModel} (fits : parameter.WellFormed markers)
    {character : Char} (member : character ∈ parameter.print) : IsTypePart character := by
  rcases List.mem_append.mp member with type | name
  · exact TypeModel.mem_print parameter.type fits.1 character type
  · rcases List.mem_cons.mp name with rfl | letter
    · exact Or.inr (by decide)
    · exact Or.inl (isIdentifierChar_of_mem fits.2.identifier letter)

theorem isParameterName_name {name : String} (fits : IsName markers name) :
    Written.IsParameterName name.toList := by
  refine ⟨fits.identifier, ?_, ?_⟩
  · have words : ∀ word ∈ builtinTypeWords, String.ofList word ∈ keywords := by decide
    intro member
    have keyword := words _ member
    rw [String.ofList_toList] at keyword
    exact fits.notKeyword keyword
  · intro equality
    have same : name = "const" := String.toList_inj.mp equality
    exact fits.notKeyword (by rw [same]; decide)

/-- A printed parameter behind blanks. -/
def written {parameter : ParameterModel} (fits : parameter.WellFormed markers)
    (before : List Char) (blank : ∀ character ∈ before, isBlank character = true) :
    Written.Parameter where
  before := before
  type := parameter.type.print
  declarator := ⟨[], parameter.name.toList, [], by simp, isParameterName_name fits.2, by simp⟩
  value := none
  behind := []
  blank := by simpa using blank
  isType := parameter.type.isType_print fits.1
  isNested := by simp

theorem print_written {parameter : ParameterModel} (fits : parameter.WellFormed markers)
    {before : List Char} (blank : ∀ character ∈ before, isBlank character = true) :
    (written fits before blank).print = before ++ parameter.print := by
  simp [written, Written.Parameter.print, Written.Parameter.declaration, Written.Parameter.default,
    Written.Declarator.print, print]

theorem type_written {parameter : ParameterModel} (fits : parameter.WellFormed markers)
    {before : List Char} (blank : ∀ character ∈ before, isBlank character = true) :
    (written fits before blank).type = parameter.type.print := rfl

end ParameterModel

/-- A printed parameter list is read as the normal forms of its types. -/
theorem types_printParameters {markers : Markers} {parameters : List ParameterModel}
    (fit : ∀ parameter ∈ parameters, parameter.WellFormed markers)
    (few : HasFewBrackets (printParameters parameters)) :
    types (printParameters parameters) =
      parameters.map fun parameter => TypeText.normalForm parameter.type.print := by
  cases parameters with
  | nil => rfl
  | cons first rest =>
      obtain ⟨firstFits, restFit⟩ := List.forall_mem_cons.mp fit
      let written := ParameterModel.written firstFits [] (by simp) ::
        rest.pmap (fun _ fits => ParameterModel.written fits [' ']
          (List.forall_mem_singleton.mpr rfl)) restFit
      have printed : commaSeparated (written.map Written.Parameter.print) =
          printParameters (first :: rest) := by
        simp only [written, List.map_cons, List.map_pmap, ParameterModel.print_written,
          commaSeparated_cons, List.pmap_eq_map, List.flatMap_map]
        rfl
      have read := @Written.types_commaSeparated_print written (printed ▸ few)
      rw [printed] at read
      simpa [written, List.map_pmap, ParameterModel.type_written] using read

/-- The types that are read from a printed parameter list. -/
def readTypes (parameters : List ParameterModel) : List String :=
  (types (printParameters parameters)).map String.ofList

theorem readTypes_eq_declaredTypes {markers : Markers} {parameters : List ParameterModel}
    (fit : ∀ parameter ∈ parameters, parameter.WellFormed markers)
    (few : HasFewBrackets (printParameters parameters)) :
    readTypes parameters = declaredTypes parameters := by
  rw [readTypes, types_printParameters fit few, List.map_map]
  rfl

end ScriptRegistrar.Printing
