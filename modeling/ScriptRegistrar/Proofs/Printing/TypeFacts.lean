import Mathlib.Data.List.Basic
import ScriptRegistrar.Members.PropertyDeclaration
import ScriptRegistrar.Proofs.Printing.TypeModel
import ScriptRegistrar.Proofs.Text.CharacterClasses

/-!
# Printed types

What every printed type has, whatever its path and its arguments: only characters that may stand
in a type, and only words that are names or `const`.
-/

namespace ScriptRegistrar.Printing

open Text

/-- The signs of a printed type, its spaces included. -/
def typeSigns : List Char :=
  [':', '<', '>', ',', ' ', '&', '*']

/-- A character of a printed type. -/
def IsTypePart (character : Char) : Prop :=
  isIdentifierChar character = true ∨ character ∈ typeSigns

/-- A word of a printed type. -/
def IsTypeWord (markers : Markers) (word : List Char) : Prop :=
  word = "const".toList ∨ ∃ name, IsTypeName markers name ∧ word = name.toList

namespace TypeModel

variable {markers : Markers}

theorem mem_printPath {name : String} {inner : List String}
    (nameFits : IsTypeName markers name) (innerFit : ∀ next ∈ inner, IsTypeName markers next)
    {character : Char} (member : character ∈ printPath name inner) : IsTypePart character := by
  rcases List.mem_append.mp member with first | later
  · exact Or.inl (isIdentifierChar_of_mem nameFits.identifier first)
  · obtain ⟨next, nextMember, found⟩ := List.mem_flatMap.mp later
    rcases List.mem_append.mp found with colon | letter
    · have signs : ∀ sign ∈ "::".toList, sign ∈ typeSigns :=
        List.forall_iff_forall_mem.mp (by decide)
      exact Or.inr (signs character colon)
    · exact Or.inl (isIdentifierChar_of_mem (innerFit next nextMember).identifier letter)

mutual

theorem mem_print : (model : TypeModel) → model.WellFormed markers →
    ∀ character ∈ model.print, IsTypePart character
  | .named isConst name inner spaced arguments signs, fits => by
      intro character member
      obtain ⟨nameFits, innerFit, argumentsFit⟩ := fits
      simp only [print, List.mem_append] at member
      rcases member with qualifier | path | between | sign
      · have parts : ∀ letter ∈ "const ".toList,
            isIdentifierChar letter = true ∨ letter ∈ typeSigns :=
          List.forall_iff_forall_mem.mp (by decide)
        cases isConst
        · cases qualifier
        · exact parts character qualifier
      · exact mem_printPath nameFits innerFit path
      · exact mem_printArguments spaced arguments argumentsFit character between
      · obtain ⟨kind, _, rfl⟩ := List.mem_map.mp sign
        cases kind <;> exact Or.inr (by decide)

theorem mem_printArguments (spaced : Bool) : (arguments : List TypeModel) →
    AllWellFormed markers arguments →
      ∀ character ∈ printArguments spaced arguments, IsTypePart character
  | [], _ => by simp [printArguments]
  | argument :: rest, fits => by
      intro character member
      simp only [printArguments, List.mem_cons, List.mem_append, List.not_mem_nil,
        or_false] at member
      rcases member with rfl | first | further | rfl
      · exact Or.inr (by decide)
      · exact mem_print argument fits.1 character first
      · exact mem_printFurther spaced rest fits.2 character further
      · exact Or.inr (by decide)

theorem mem_printFurther (spaced : Bool) : (arguments : List TypeModel) →
    AllWellFormed markers arguments →
      ∀ character ∈ printFurther spaced arguments, IsTypePart character
  | [], _ => by simp [printFurther]
  | argument :: rest, fits => by
      intro character member
      simp only [printFurther, List.mem_cons, List.mem_append] at member
      rcases member with rfl | space | first | further
      · exact Or.inr (by decide)
      · cases spaced
        · cases space
        · exact Or.inr (by simp at space; simp [space, typeSigns])
      · exact mem_print argument fits.1 character first
      · exact mem_printFurther spaced rest fits.2 character further

end

theorem wordsIn_printPath {name : String} {inner : List String}
    (nameFits : IsTypeName markers name) (innerFit : ∀ next ∈ inner, IsTypeName markers next) :
    ∀ word ∈ wordsIn (printPath name inner), IsTypeWord markers word := by
  have single : ∀ {next : String}, IsTypeName markers next → wordsIn next.toList = [next.toList] :=
    fun fits => wordsIn_of_isWordText (isWordText_of_isIdentifier fits.identifier)
  have further : ∀ names : List String, (∀ next ∈ names, IsTypeName markers next) →
      (names.flatMap fun next => "::".toList ++ next.toList).head?.any isWord = false ∧
        ∀ word ∈ wordsIn (names.flatMap fun next => "::".toList ++ next.toList),
          IsTypeWord markers word := by
    intro names fit
    induction names with
    | nil => exact ⟨rfl, by simp⟩
    | cons next rest induction =>
        obtain ⟨nextFits, restFit⟩ := List.forall_mem_cons.mp fit
        obtain ⟨separated, known⟩ := induction restFit
        refine ⟨rfl, ?_⟩
        intro word member
        rw [List.flatMap_cons, wordsIn_append _ separated] at member
        rcases List.mem_append.mp member with first | later
        · rw [show "::".toList ++ next.toList = ':' :: ':' :: next.toList from rfl,
            wordsIn_cons_of_not_isWord _ (by decide), wordsIn_cons_of_not_isWord _ (by decide),
            single nextFits] at first
          exact Or.inr ⟨next, nextFits, List.mem_singleton.mp first⟩
        · exact known word later
  obtain ⟨separated, known⟩ := further inner innerFit
  intro word member
  rw [printPath, wordsIn_append _ separated, single nameFits] at member
  rcases List.mem_append.mp member with first | later
  · exact Or.inr ⟨name, nameFits, List.mem_singleton.mp first⟩
  · exact known word later

theorem wordsIn_signs (signs : List ReferenceSign) :
    (signs.map ReferenceSign.character).head?.any isWord = false ∧
      wordsIn (signs.map ReferenceSign.character) = [] := by
  induction signs with
  | nil => exact ⟨rfl, wordsIn_nil⟩
  | cons sign rest induction =>
      have separates : isWord sign.character = false := by cases sign <;> decide
      refine ⟨by simpa using separates, ?_⟩
      rw [List.map_cons, wordsIn_cons_of_not_isWord _ separates, induction.2]

theorem head?_printFurther_append (spaced : Bool) (arguments : List TypeModel)
    (rest : List Char) (separated : rest.head?.any isWord = false) :
    (printFurther spaced arguments ++ rest).head?.any isWord = false := by
  cases arguments with
  | nil => exact separated
  | cons argument others => rw [printFurther]; rfl

theorem head?_printArguments_append (spaced : Bool) (arguments : List TypeModel)
    (rest : List Char) (separated : rest.head?.any isWord = false) :
    (printArguments spaced arguments ++ rest).head?.any isWord = false := by
  cases arguments with
  | nil => exact separated
  | cons argument others => rw [printArguments]; rfl

mutual

theorem wordsIn_print : (model : TypeModel) → model.WellFormed markers →
    ∀ word ∈ wordsIn model.print, IsTypeWord markers word
  | .named isConst name inner spaced arguments signs, fits => by
      obtain ⟨nameFits, innerFit, argumentsFit⟩ := fits
      obtain ⟨signsSeparated, noWords⟩ := wordsIn_signs signs
      have separated := head?_printArguments_append spaced arguments _ signsSeparated
      have behind : ∀ word ∈ wordsIn (printPath name inner ++ (printArguments spaced arguments ++
          signs.map ReferenceSign.character)), IsTypeWord markers word := by
        intro word member
        rw [wordsIn_append _ separated, wordsIn_append _ signsSeparated, noWords,
          List.append_nil] at member
        rcases List.mem_append.mp member with path | between
        · exact wordsIn_printPath nameFits innerFit word path
        · exact wordsIn_printArguments spaced arguments argumentsFit word between
      intro word member
      cases isConst with
      | false => exact behind word member
      | true =>
          have shape : print (.named true name inner spaced arguments signs) =
              "const".toList ++ ' ' :: (printPath name inner ++
                (printArguments spaced arguments ++ signs.map ReferenceSign.character)) := rfl
          rw [shape, wordsIn_append_cons _ _ (by decide), show wordsIn "const".toList =
            ["const".toList] by decide] at member
          rcases List.mem_append.mp member with qualifier | later
          · exact Or.inl (List.mem_singleton.mp qualifier)
          · exact behind word later

theorem wordsIn_printArguments (spaced : Bool) : (arguments : List TypeModel) →
    AllWellFormed markers arguments →
      ∀ word ∈ wordsIn (printArguments spaced arguments), IsTypeWord markers word
  | [], _ => by simp [printArguments]
  | argument :: rest, fits => by
      have separated := head?_printFurther_append spaced rest ['>'] (by decide)
      intro word member
      rw [printArguments, wordsIn_cons_of_not_isWord _ (by decide), wordsIn_append _ separated,
        wordsIn_append_cons _ _ (by decide), wordsIn_nil, List.append_nil] at member
      rcases List.mem_append.mp member with first | further
      · exact wordsIn_print argument fits.1 word first
      · exact wordsIn_printFurther spaced rest fits.2 word further

theorem wordsIn_printFurther (spaced : Bool) : (arguments : List TypeModel) →
    AllWellFormed markers arguments →
      ∀ word ∈ wordsIn (printFurther spaced arguments), IsTypeWord markers word
  | [], _ => by simp [printFurther]
  | argument :: rest, fits => by
      have separated := head?_printFurther_append spaced rest [] rfl
      rw [List.append_nil] at separated
      have behind : ∀ word ∈ wordsIn (argument.print ++ printFurther spaced rest),
          IsTypeWord markers word := by
        intro word member
        rw [wordsIn_append _ separated] at member
        rcases List.mem_append.mp member with first | further
        · exact wordsIn_print argument fits.1 word first
        · exact wordsIn_printFurther spaced rest fits.2 word further
      intro word member
      rw [printFurther, wordsIn_cons_of_not_isWord _ (by decide)] at member
      cases spaced with
      | false => exact behind word member
      | true =>
          exact behind word (by rwa [if_pos rfl, List.singleton_append,
            wordsIn_cons_of_not_isWord _ (by decide)] at member)

end

end TypeModel

end ScriptRegistrar.Printing
