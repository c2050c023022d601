import ScriptRegistrar.Proofs.NestedText
import ScriptRegistrar.Proofs.ParameterPieces
import ScriptRegistrar.Proofs.TypeNormalForm

/-!
# Types as they are written

The types that a parameter may have, as texts: a path of names, template arguments that are types
again, `const` in front, and behind it any run of signs and of the qualifier.  Such a text is level
in a parameter list, with no comma and no equals sign outside of its brackets, and it has a normal
form that is not empty.
-/

namespace ScriptRegistrar.Written

open Text ParameterList

/-- A text with blanks around it. -/
structure Padded where
  before : List Char
  text : List Char
  behind : List Char
  blank : ∀ character ∈ before ++ behind, isBlank character = true

def Padded.print (padded : Padded) : List Char :=
  padded.before ++ (padded.text ++ padded.behind)

/-- A path of names, none of which is the qualifier. -/
inductive IsPath : List Char → Prop where
  | name {name : List Char} (identifier : isIdentifier name = true)
      (notQualifier : name ≠ TypeText.qualifier) : IsPath name
  | inner {name rest : List Char} (identifier : isIdentifier name = true)
      (notQualifier : name ≠ TypeText.qualifier) (others : IsPath rest) :
      IsPath (name ++ ':' :: ':' :: rest)

/-- What may follow a type: a sign, with a space in front or without, or the qualifier. -/
inductive IsSuffix : List Char → Prop where
  | sign {sign : Char} (isSign : TypeText.isReferenceSign sign = true) : IsSuffix [sign]
  | spacedSign {sign : Char} (isSign : TypeText.isReferenceSign sign = true) : IsSuffix [' ', sign]
  | qualifier : IsSuffix (' ' :: TypeText.qualifier)

inductive IsSuffixRun : List Char → Prop where
  | nil : IsSuffixRun []
  | append {suffix rest : List Char} (isSuffix : IsSuffix suffix) (others : IsSuffixRun rest) :
      IsSuffixRun (suffix ++ rest)

/-- `const` and a space, or nothing. -/
def leading (isConst : Bool) : List Char :=
  if isConst then "const ".toList else []

/-- A type: a path, with template arguments or without, between `const` and suffixes. -/
inductive IsType : List Char → Prop where
  | named (isConst : Bool) {path suffixes : List Char} (isPath : IsPath path)
      (run : IsSuffixRun suffixes) : IsType (leading isConst ++ (path ++ suffixes))
  | template (isConst : Bool) {path suffixes : List Char} {arguments : List Padded}
      (isPath : IsPath path)
      (types : ∀ argument ∈ arguments, IsType argument.text) (run : IsSuffixRun suffixes) :
      IsType (leading isConst ++
        (path ++ ('<' :: (commaSeparated (arguments.map Padded.print) ++ '>' :: suffixes))))

theorem IsSuffixRun.concat {run suffix : List Char} (isRun : IsSuffixRun run)
    (isSuffix : IsSuffix suffix) : IsSuffixRun (run ++ suffix) := by
  induction isRun with
  | nil => simpa using IsSuffixRun.append isSuffix .nil
  | append first _ induction => simpa using IsSuffixRun.append first induction

theorem IsType.append_suffix {type suffix : List Char} (isType : IsType type)
    (isSuffix : IsSuffix suffix) : IsType (type ++ suffix) := by
  cases isType with
  | named isConst isPath run =>
      simpa using IsType.named isConst isPath (run.concat isSuffix)
  | template isConst isPath types run =>
      simpa using IsType.template isConst isPath types (run.concat isSuffix)

/-- What a type may have outside of its brackets. -/
def isTypeChar (character : Char) : Bool :=
  character ≠ ',' && character ≠ '='

section

variable {free : Char → Bool} {nesting : Nesting}

theorem levels_of_blanks {blanks : List Char}
    (blank : ∀ character ∈ blanks, isBlank character = true)
    (areFree : ∀ character ∈ blanks, free character = true) : nesting.Levels free blanks :=
  .of_isPlain (fun character member => Nesting.isPlain_of_isBlank (blank character member)) areFree

theorem levels_of_letters {letters : List Char}
    (areLetters : ∀ character ∈ letters, isIdentifierChar character = true)
    (areFree : ∀ character ∈ letters, free character = true) : nesting.Levels free letters :=
  .of_isPlain
    (fun character member => Nesting.isPlain_of_isIdentifierChar (areLetters character member))
    areFree

/-- Pieces between commas are level if every piece is. -/
theorem levels_commaSeparated {pieces : List (List Char)} (comma : free ',' = true)
    (levels : ∀ piece ∈ pieces, ∀ previous, Nesting.Levels free { nesting with previous } piece) :
    nesting.Levels free (commaSeparated pieces) := by
  have further : ∀ previous, Nesting.Levels free { nesting with previous }
      (commaSeparated pieces) := by
    induction pieces with
    | nil => exact fun _ => .nil free _
    | cons piece others induction =>
        obtain ⟨first, rest⟩ := List.forall_mem_cons.mp levels
        intro previous
        cases others with
        | nil => simpa [commaSeparated] using first previous
        | cons next later =>
            have separator : ∀ previous, Nesting.Levels free { nesting with previous } [','] :=
              fun _ => .of_isPlain (List.forall_mem_singleton.mpr rfl) (by simpa using comma)
            rw [commaSeparated_cons_cons, ← List.singleton_append]
            exact (first previous).append fun _ => (separator _).append fun _ => induction rest _
  exact further nesting.previous

end

theorem isTypeChar_of_isIdentifierChar {character : Char}
    (letter : isIdentifierChar character = true) : isTypeChar character = true := by
  rw [isTypeChar, Bool.and_eq_true, decide_eq_true_eq, decide_eq_true_eq]
  constructor <;> rintro rfl <;> exact Bool.noConfusion letter

theorem isTypeChar_of_isBlank {character : Char} (blank : isBlank character = true) :
    isTypeChar character = true := by
  rw [isTypeChar, Bool.and_eq_true, decide_eq_true_eq, decide_eq_true_eq]
  constructor <;> rintro rfl <;> exact absurd blank (by decide)

theorem levels_of_isPath {path : List Char} (isPath : IsPath path) (nesting : Nesting) :
    nesting.Levels isTypeChar path := by
  have name : ∀ {name : List Char} {nesting : Nesting}, isIdentifier name = true →
      nesting.Levels isTypeChar name := fun identifier =>
    levels_of_letters (fun _ member => isIdentifierChar_of_mem identifier member)
      fun _ member => isTypeChar_of_isIdentifierChar (isIdentifierChar_of_mem identifier member)
  induction isPath generalizing nesting with
  | name identifier _ => exact name identifier
  | inner identifier _ _ induction =>
      have colons : ∀ nesting : Nesting, nesting.Levels isTypeChar [':', ':'] :=
        fun _ => .of_isPlain (List.all_eq_true.mp (by decide)) (List.all_eq_true.mp (by decide))
      exact (name identifier).append fun _ => (colons _).append fun _ => induction _

theorem levels_of_isSuffixRun {run : List Char} (isRun : IsSuffixRun run) (nesting : Nesting) :
    nesting.Levels isTypeChar run := by
  have ofSign : ∀ {sign : Char}, TypeText.isReferenceSign sign = true →
      Nesting.isPlain sign = true ∧ isTypeChar sign = true := by
    intro sign isSign
    rcases TypeText.isReferenceSign_iff.mp isSign with rfl | rfl <;> decide
  induction isRun generalizing nesting with
  | nil => exact .nil _ _
  | @append suffix rest isSuffix _ induction =>
      have first : nesting.Levels isTypeChar suffix := by
        cases isSuffix with
        | sign isSign =>
            exact .of_isPlain (by simpa using (ofSign isSign).1) (by simpa using (ofSign isSign).2)
        | spacedSign isSign =>
            have space : Nesting.isPlain ' ' = true ∧ isTypeChar ' ' = true := by decide
            exact .of_isPlain (by simp [space, (ofSign isSign).1])
              (by simp [space, (ofSign isSign).2])
        | qualifier =>
            exact .of_isPlain (List.all_eq_true.mp (by decide)) (List.all_eq_true.mp (by decide))
      exact first.append fun _ => induction _

theorem levels_leading (isConst : Bool) (nesting : Nesting) :
    nesting.Levels isTypeChar (leading isConst) := by
  cases isConst
  · exact .nil _ _
  · exact .of_isPlain (List.all_eq_true.mp (by decide)) (List.all_eq_true.mp (by decide))

/-- A type closes the brackets it opens, with no comma and no equals sign outside of them. -/
theorem levels_of_isType {type : List Char} (isType : IsType type) {nesting : Nesting}
    (inType : nesting.inDefault = false) : nesting.Levels isTypeChar type := by
  induction isType generalizing nesting with
  | named isConst isPath run =>
      exact (levels_leading isConst nesting).append fun _ =>
        (levels_of_isPath isPath _).append fun _ => levels_of_isSuffixRun run _
  | @template isConst path suffixes arguments isPath _ run levels =>
      have within : ∀ deeper : Nesting, deeper.inDefault = false → deeper.isTop = false →
          deeper.Levels (fun _ => true) (commaSeparated (arguments.map Padded.print)) := by
        intro deeper stillInType _
        refine levels_commaSeparated rfl fun piece listed previous => ?_
        obtain ⟨argument, member, rfl⟩ := List.mem_map.mp listed
        obtain ⟨blankBefore, blankBehind⟩ := List.forall_mem_append.mp argument.blank
        have type : ∀ previous, Nesting.Levels (fun _ => true) { deeper with previous }
            argument.text := fun previous =>
          (@levels argument member { deeper with previous } stillInType).mono fun _ _ => rfl
        exact (levels_of_blanks blankBefore fun _ _ => rfl).append fun _ =>
          (type _).append fun _ => levels_of_blanks blankBehind fun _ _ => rfl
      have brackets : ∀ previous, Nesting.Levels isTypeChar { nesting with previous }
          ('<' :: (commaSeparated (arguments.map Padded.print) ++ ['>'])) :=
        fun _ => Nesting.levels_angles inType (by decide) within
      have arguments := fun previous => (brackets previous).append
        fun _ => levels_of_isSuffixRun run _
      refine (levels_leading isConst nesting).append fun _ => (levels_of_isPath isPath _).append
        fun previous => ?_
      simpa using arguments previous

theorem IsPath.exists_name {path : List Char} (isPath : IsPath path) :
    ∃ name rest, path = name ++ rest ∧ isIdentifier name = true ∧ name ≠ TypeText.qualifier ∧
      (rest = [] ∨ rest.head? = some ':') := by
  cases isPath with
  | name identifier notQualifier => exact ⟨_, [], by simp, identifier, notQualifier, Or.inl rfl⟩
  | inner identifier notQualifier _ => exact ⟨_, _, rfl, identifier, notQualifier, Or.inr rfl⟩

theorem head?_filter_of_isSuffixRun {run : List Char} (isRun : IsSuffixRun run) :
    (run.filter (!TypeText.isReferenceSign ·)).head?.any isIdentifierChar = false := by
  induction isRun with
  | nil => rfl
  | append isSuffix _ induction =>
      cases isSuffix with
      | sign isSign => simpa [isSign] using induction
      | spacedSign isSign => rfl
      | qualifier => rfl

/-- A type is a whole name other than the qualifier, with `const` in front or without, and what
follows the name starts with no identifier character. -/
theorem IsType.exists_name {type : List Char} (isType : IsType type) :
    ∃ isConst name rest, type = leading isConst ++ (name ++ rest) ∧ isIdentifier name = true ∧
      name ≠ TypeText.qualifier ∧
        (rest.filter (!TypeText.isReferenceSign ·)).head?.any isIdentifierChar = false := by
  have ofPath : ∀ (isConst : Bool) {path behind : List Char}, IsPath path →
      (behind.filter (!TypeText.isReferenceSign ·)).head?.any isIdentifierChar = false →
        ∃ isOther name rest, leading isConst ++ (path ++ behind) =
          leading isOther ++ (name ++ rest) ∧ isIdentifier name = true ∧
            name ≠ TypeText.qualifier ∧
              (rest.filter (!TypeText.isReferenceSign ·)).head?.any isIdentifierChar = false := by
    intro isConst path behind isPath ends
    obtain ⟨name, rest, rfl, identifier, notQualifier, colon⟩ := isPath.exists_name
    refine ⟨isConst, name, rest ++ behind, by simp, identifier, notQualifier, ?_⟩
    rcases colon with rfl | colon
    · exact ends
    · cases rest with
      | nil => cases colon
      | cons first others =>
          cases colon
          rfl
  cases isType with
  | named isConst isPath run => exact ofPath isConst isPath (head?_filter_of_isSuffixRun run)
  | template isConst isPath types run => exact ofPath isConst isPath rfl

theorem exists_cons_of_isType {type : List Char} (isType : IsType type) :
    ∃ first rest, type = first :: rest ∧ isBlank first = false := by
  obtain ⟨isConst, name, rest, rfl, identifier, _, _⟩ := isType.exists_name
  obtain ⟨first, others, rfl, start, _⟩ := isIdentifier_iff.mp identifier
  cases isConst with
  | true => exact ⟨'c', _, rfl, by decide⟩
  | false =>
      exact ⟨first, _, rfl,
        isBlank_of_isIdentifierChar (isIdentifierChar_of_isIdentifierStart start)⟩

/-- Something is left of a type in its normal form: at least the first name of its path. -/
theorem normalForm_ne_nil_of_isType {type : List Char} (isType : IsType type) :
    TypeText.normalForm type ≠ [] := by
  obtain ⟨isConst, name, rest, rfl, identifier, notQualifier, ends⟩ := isType.exists_name
  have letters : ∀ character ∈ name, isIdentifierChar character = true :=
    fun _ member => isIdentifierChar_of_mem identifier member
  have kept : name.filter (!TypeText.isReferenceSign ·) = name :=
    List.filter_eq_self.mpr fun character member => by
      simp [TypeText.isReferenceSign_of_isIdentifierChar (letters character member)]
  obtain ⟨others, reads⟩ := TypeText.dropQualifier_word letters notQualifier ends
  have starts : ∃ before, TypeText.dropQualifier []
      ((leading isConst ++ (name ++ rest)).filter (!TypeText.isReferenceSign ·)) =
        before ++ (name ++ others) := by
    rw [List.filter_append, List.filter_append, kept]
    cases isConst with
    | false => exact ⟨[], reads⟩
    | true => exact ⟨[' ', ' '], congrArg (' ' :: ' ' :: ·) reads⟩
  obtain ⟨before, reads⟩ := starts
  obtain ⟨first, later, rfl, start, _⟩ := isIdentifier_iff.mp identifier
  refine TypeText.tighten_ne_nil none false ⟨first, ?_, ?_⟩
  · rw [reads]
    simp
  · exact isBlank_of_isIdentifierChar (isIdentifierChar_of_isIdentifierStart start)

end ScriptRegistrar.Written
