import ScriptRegistrar.Proofs.Printing.MemberReading
import ScriptRegistrar.Proofs.PropertyRecognition

/-!
# Reading printed properties

A printed type consists of type characters and a space stands behind it, so that it is read whole
and the word behind the space is read as the name.
-/

namespace ScriptRegistrar

open Text Text.Cursor Text.Recogniser

namespace Printing

variable {markers : Markers}

theorem getLast?_append_any {test : Char → Bool} {left right : List Char}
    (leftEnds : right = [] → left.getLast?.any test = false)
    (rightEnds : right.getLast?.any test = false) :
    (left ++ right).getLast?.any test = false := by
  cases right with
  | nil => simpa using leftEnds rfl
  | cons next rest =>
      rwa [List.getLast?_append, List.getLast?_eq_some_getLast (by simp), Option.some_or,
        ← List.getLast?_eq_some_getLast]

theorem getLast?_identifier {name : String} (identifier : isIdentifier name.toList = true) :
    name.toList.getLast?.any isBlank = false := by
  cases last : name.toList.getLast? with
  | none => rfl
  | some character =>
      exact isBlank_of_isIdentifierChar
        (isIdentifierChar_of_mem identifier (List.mem_of_getLast? last))

theorem TypeModel.getLast?_print (model : TypeModel) (fits : model.WellFormed markers) :
    model.print.getLast?.any isBlank = false := by
  obtain ⟨isConst, name, inner, spaced, arguments, signs⟩ := model
  obtain ⟨nameFits, innerFit, _⟩ := fits
  rw [print]
  have signsEnd : (signs.map ReferenceSign.character).getLast?.any isBlank = false := by
    cases last : (signs.map ReferenceSign.character).getLast? with
    | none => rfl
    | some character =>
        obtain ⟨sign, _, rfl⟩ := List.mem_map.mp (List.mem_of_getLast? last)
        cases sign <;> decide
  have argumentsEnd : (printArguments spaced arguments).getLast?.any isBlank = false := by
    cases arguments with
    | nil => simp [printArguments]
    | cons argument rest =>
        rw [printArguments, ← List.append_assoc, ← List.cons_append]
        exact getLast?_append_any (by simp) (by decide)
  have innerEnds : (inner.flatMap fun next => "::".toList ++ next.toList).getLast?.any isBlank =
      false := by
    induction inner with
    | nil => rfl
    | cons next rest induction =>
        obtain ⟨nextFits, restFit⟩ := List.forall_mem_cons.mp innerFit
        rw [List.flatMap_cons]
        exact getLast?_append_any (fun _ => getLast?_append_any (fun _ => by decide)
          (getLast?_identifier nextFits.identifier)) (induction restFit)
  have pathEnds : (printPath name inner).getLast?.any isBlank = false :=
    getLast?_append_any (fun _ => getLast?_identifier nameFits.identifier) innerEnds
  refine getLast?_append_any (fun empty => ?_)
    (getLast?_append_any (fun _ => pathEnds) (getLast?_append_any (fun _ => argumentsEnd) signsEnd))
  have nothing := (List.append_eq_nil_iff.mp (List.append_eq_nil_iff.mp empty).1).1
  have identifier := nameFits.identifier
  rw [nothing] at identifier
  exact Bool.noConfusion identifier

end Printing

namespace PropertyDeclaration

open Printing

variable {markers : Markers}

theorem isTypeChar_of_isTypePart {character : Char} (part : IsTypePart character) :
    isTypeChar character = true := by
  rcases part with letter | sign
  · simp [isTypeChar, isWord_of_isIdentifierChar letter]
  · have signs : ∀ sign ∈ typeSigns, isTypeChar sign = true := List.all_eq_true.mp (by decide)
    exact signs character sign

/-- The type of a printed property is read to its end. -/
theorem readType?_printed {name : String} (fits : IsName markers name) {after : List Char}
    (parts : ∀ character ∈ after, IsTypePart character)
    (ends : after.getLast?.any isBlank = false) (type passed rest : List Char) :
    readType? type passed (after ++ ' ' :: (name.toList ++ ';' :: rest)) =
      some ((type.reverse ++ after, name.toList),
        ⟨(after ++ ' ' :: (name.toList ++ [';'])).reverse ++ passed, rest⟩) := by
  have chars : ∀ character ∈ after ++ [' '], isTypeChar character = true :=
    List.forall_mem_append.mpr ⟨fun character member => isTypeChar_of_isTypePart (parts character member),
      List.forall_mem_singleton.mpr (isTypeChar_of_isBlank rfl)⟩
  have outside : NotInWord ((after ++ [' ']).reverse ++ passed) := by
    simpa using notInWord_cons (by decide)
  have kept : dropEndWhile isBlank (after ++ [' ']) = after := by
    rw [dropEndWhile_append_of_all after (List.forall_mem_singleton.mpr rfl), dropEndWhile_eq_self ends]
  have read := readType?_name chars outside fits.isWordText (show (';' :: rest).head?.any isWord =
    false from rfl) (@readEnd?_append [] [] (by simp) .none _ rest) type
  rw [kept, List.append_assoc, List.singleton_append] at read
  rw [read]
  simp

theorem read?_print (legible : markers.Legible) {type : TypeModel}
    (typeFits : type.WellFormed markers) {name : String} (fits : IsName markers name)
    {passed : List Char} (outside : NotInWord passed) (rest : List Char) :
    ∃ before, (MemberModel.property type name).print markers = before ++ ['
'] ∧
      NotInWord before.reverse ∧
      read? markers.property.toList
          ⟨passed, (MemberModel.property type name).print markers ++ rest⟩ =
        some (⟨name, type.normal⟩, ⟨before.reverse ++ passed, '
' :: rest⟩) := by
  have isWordText :=
    legible.isWordText (show markers.property ∈ markers.tokens by simp [Markers.tokens])
  have start := type.head?_print typeFits
  obtain ⟨first, others, typeShape⟩ := List.exists_cons_of_ne_nil
    (show type.print ≠ [] by rintro empty; simp [empty] at start)
  have startsType : isIdentifierStart first = true := by simpa [typeShape] using start
  have parts := type.mem_print typeFits
  have ends := type.getLast?_print typeFits
  rw [typeShape] at parts ends
  have othersEnd : others.getLast?.any isBlank = false := by
    cases others with
    | nil => rfl
    | cons second later => simpa using ends
  refine ⟨markers.property.toList ++ ("() ".toList ++
    (type.print ++ ' ' :: (name.toList ++ [';']))), by simp [MemberModel.print],
      by simp [NotInWord]; decide, ?_⟩
  have shape : (MemberModel.property type name).print markers ++ rest =
      markers.property.toList ++ '(' :: ')' :: ' ' ::
        (first :: (others ++ ' ' :: (name.toList ++ ';' :: '
' :: rest))) := by
    simp [MemberModel.print, typeShape]
  have boundary := isBoundary_marker outside isWordText ('(' :: ')' :: ' ' ::
    (first :: (others ++ ' ' :: (name.toList ++ ';' :: '
' :: rest))))
  have notBlank : (first :: (others ++ ' ' :: (name.toList ++ ';' :: '
' :: rest))).head?.any
      isBlank = false :=
    isBlank_of_isIdentifierChar (isIdentifierChar_of_isIdentifierStart startsType)
  have typed : ∀ before, readType? [first] before
      (others ++ ' ' :: (name.toList ++ ';' :: '
' :: rest)) = _ :=
    fun before => readType?_printed fits
      (fun character member => parts character (List.mem_cons_of_mem first member)) othersEnd
        [first] before ('
' :: rest)
  simp only [read?, shape, boundary, guard, if_true, Option.bind_eq_bind, Option.pure_def,
    Option.bind_some, literal?_append, sign?_passBlanks_opening, sign?_passBlanks_closing,
    passBlanks_space notBlank, startsType, typed]
  simp [TypeModel.normal, typeShape]

end PropertyDeclaration

end ScriptRegistrar
