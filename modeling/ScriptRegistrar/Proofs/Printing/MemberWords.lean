import ScriptRegistrar.Proofs.Printing.ClassModel
import ScriptRegistrar.Proofs.Printing.ParameterReading

/-!
# Words of printed members

Besides its marker and `void`, the line of a member holds only ordinary words: words that no
search of a class body is for.  A search for another marker passes over the whole line.
-/

namespace ScriptRegistrar

open Text

/-- Whether markers can be told from each other and from the keywords. -/
structure Markers.Legible (markers : Markers) : Prop where
  identifier : ∀ token ∈ markers.tokens, isIdentifier token.toList = true
  notKeyword : ∀ token ∈ markers.tokens, token ∉ Printing.keywords
  distinct : markers.tokens.Nodup

theorem Markers.Legible.isWordText {markers : Markers} (legible : markers.Legible)
    {token : String} (member : token ∈ markers.tokens) : IsWordText token.toList :=
  isWordText_of_isIdentifier (legible.identifier token member)

theorem Markers.Legible.ne_void {markers : Markers} (legible : markers.Legible) {token : String}
    (listed : token ∈ markers.tokens) : token.toList ≠ "void".toList := by
  intro equality
  have keyword := legible.notKeyword token listed
  rw [String.toList_inj.mp equality] at keyword
  exact keyword (by decide)

namespace Printing

/-- A word that no search of a class body is for. -/
structure IsOrdinary (markers : Markers) (word : List Char) : Prop where
  notMarker : ∀ token ∈ markers.tokens, word ≠ token.toList
  notVoid : word ≠ "void".toList

variable {markers : Markers}

/-- A keyword other than `void` is ordinary. -/
theorem isOrdinary_of_keyword (legible : markers.Legible) {word : String}
    (keyword : word ∈ keywords) (notVoid : word ≠ "void") : IsOrdinary markers word.toList := by
  constructor
  · intro token member equality
    rw [String.toList_inj.mp equality] at keyword
    exact legible.notKeyword token member keyword
  · exact fun equality => notVoid (String.toList_inj.mp equality)

theorem IsName.isOrdinary {name : String} (fits : IsName markers name) :
    IsOrdinary markers name.toList := by
  constructor
  · intro token member equality
    rw [← String.toList_inj.mp equality] at member
    exact fits.notMarker member
  · intro equality
    have keyword := fits.notKeyword
    rw [String.toList_inj.mp equality] at keyword
    exact keyword (by decide)

theorem IsTypeName.isOrdinary {name : String} (fits : IsTypeName markers name) :
    IsOrdinary markers name.toList := by
  constructor
  · intro token member equality
    rw [← String.toList_inj.mp equality] at member
    exact fits.notMarker member
  · intro equality
    have keyword := fits.keyword
    rw [String.toList_inj.mp equality] at keyword
    exact absurd (keyword (by decide)) (by decide)

theorem IsTypeWord.isOrdinary (legible : markers.Legible) {word : List Char}
    (fits : IsTypeWord markers word) : IsOrdinary markers word := by
  rcases fits with rfl | ⟨name, nameFits, rfl⟩
  · exact isOrdinary_of_keyword legible (by decide) (by decide)
  · exact nameFits.isOrdinary

theorem IsName.isWordText {name : String} (fits : IsName markers name) :
    IsWordText name.toList :=
  isWordText_of_isIdentifier fits.identifier

theorem ParameterModel.isOrdinary_of_mem_words (legible : markers.Legible)
    {parameter : ParameterModel} (fits : parameter.WellFormed markers) :
    ∀ word ∈ wordsIn parameter.print, IsOrdinary markers word := by
  intro word member
  rw [ParameterModel.print, wordsIn_append_cons _ _ (by decide),
    wordsIn_of_isWordText fits.2.isWordText] at member
  rcases List.mem_append.mp member with type | name
  · exact (TypeModel.wordsIn_print parameter.type fits.1 word type).isOrdinary legible
  · rw [List.mem_singleton.mp name]
    exact fits.2.isOrdinary

theorem isOrdinary_of_mem_words_printParameters (legible : markers.Legible)
    {parameters : List ParameterModel} (fit : ∀ parameter ∈ parameters, parameter.WellFormed markers) :
    ∀ word ∈ wordsIn (printParameters parameters), IsOrdinary markers word := by
  cases parameters with
  | nil => simp [printParameters]
  | cons first rest =>
      obtain ⟨firstFits, restFit⟩ := List.forall_mem_cons.mp fit
      have further : ∀ others : List ParameterModel,
          (∀ parameter ∈ others, parameter.WellFormed markers) →
          (others.flatMap fun parameter => ',' :: ' ' :: parameter.print).head?.any isWord = false ∧
            ∀ word ∈ wordsIn (others.flatMap fun parameter => ',' :: ' ' :: parameter.print),
              IsOrdinary markers word := by
        intro others othersFit
        induction others with
        | nil => exact ⟨rfl, by simp⟩
        | cons next later induction =>
            obtain ⟨nextFits, laterFit⟩ := List.forall_mem_cons.mp othersFit
            obtain ⟨separated, ordinary⟩ := induction laterFit
            refine ⟨rfl, ?_⟩
            intro word member
            rw [List.flatMap_cons, wordsIn_append _ separated,
              wordsIn_cons_of_not_isWord _ (by decide),
              wordsIn_cons_of_not_isWord _ (by decide)] at member
            rcases List.mem_append.mp member with here | behind
            · exact next.isOrdinary_of_mem_words legible nextFits word here
            · exact ordinary word behind
      obtain ⟨separated, ordinary⟩ := further rest restFit
      intro word member
      rw [printParameters, wordsIn_append _ separated] at member
      rcases List.mem_append.mp member with here | behind
      · exact first.isOrdinary_of_mem_words legible firstFits word here
      · exact ordinary word behind

theorem isOrdinary_of_mem_words_printTail (legible : markers.Legible)
    {parameters : List ParameterModel} (fit : ∀ parameter ∈ parameters, parameter.WellFormed markers) :
    ∀ word ∈ wordsIn (printTail parameters), IsOrdinary markers word := by
  have ending : wordsIn ");\n".toList = [] := by decide
  intro word member
  rw [printTail, wordsIn_append _ (by decide), ending, List.append_nil] at member
  exact isOrdinary_of_mem_words_printParameters legible fit word member

theorem wordsIn_printHandler {function : String} (fits : IsName markers function)
    (parameters : List ParameterModel) :
    wordsIn (printHandler function parameters) =
      "void".toList :: function.toList :: wordsIn (printTail parameters) := by
  rw [printHandler, wordsIn_append_cons _ _ (by decide), wordsIn_append_cons _ _ (by decide),
    wordsIn_of_isWordText fits.isWordText]
  rfl

namespace MemberModel

/-- The marker in front of a member. -/
def mark? (markers : Markers) : MemberModel → Option String
  | marked .. => some markers.message
  | labelled .. => some markers.namedMessage
  | bare .. => none
  | property .. => some markers.property

/-- Whether a member is a function. -/
def isHandler : MemberModel → Bool
  | property .. => false
  | _ => true

/-- What stands in front of a declaration: its marker with what belongs to it. -/
def lead (markers : Markers) : MemberModel → List Char
  | marked .. => markers.message.toList ++ "() ".toList
  | labelled label .. =>
    markers.namedMessage.toList ++ ("(\"".toList ++ (label.toList ++ "\") ".toList))
  | bare .. => []
  | property .. => markers.property.toList ++ "() ".toList

/-- The declaration of a member, up to the end of its line. -/
def declared : MemberModel → List Char
  | marked function parameters | labelled _ function parameters | bare function parameters =>
    printHandler function parameters
  | property type name => type.print ++ ' ' :: (name.toList ++ ";\n".toList)

theorem print_eq (markers : Markers) (member : MemberModel) :
    member.print markers = member.lead markers ++ member.declared := by
  cases member <;> simp [print, lead, declared]

/-- No declaration goes on with a word of what is in front of it. -/
theorem ended_lead (markers : Markers) (member : MemberModel) :
    NotInWord (member.lead markers).reverse := by
  have space : isWord ' ' = false := by decide
  cases member <;> simp [lead, NotInWord, space]

theorem exists_declared (member : MemberModel) : ∃ front, member.declared = front ++ ['\n'] := by
  have handler : ∀ function parameters, ∃ front,
      printHandler function parameters = front ++ ['\n'] := fun function parameters =>
    ⟨"void".toList ++ ' ' :: (function.toList ++ '(' :: (printParameters parameters ++ [')', ';'])),
      by simp [printHandler, printTail]⟩
  cases member with
  | marked function parameters => exact handler function parameters
  | labelled label function parameters => exact handler function parameters
  | bare function parameters => exact handler function parameters
  | property type name => exact ⟨type.print ++ ' ' :: (name.toList ++ [';']), by simp [declared]⟩

theorem ended_print (markers : Markers) (member : MemberModel) :
    NotInWord (member.print markers).reverse := by
  obtain ⟨front, shape⟩ := member.exists_declared
  rw [print_eq, shape, List.reverse_append, List.reverse_append]
  exact notInWord_cons (by decide)

theorem mem_tokens_of_mark? {member : MemberModel} {token : String}
    (marks : member.mark? markers = some token) : token ∈ markers.tokens := by
  cases member <;> cases marks <;> simp [Markers.tokens]

theorem mem_words_lead (legible : markers.Legible) {member : MemberModel}
    (fits : member.WellFormed markers) {word : List Char}
    (found : word ∈ wordsIn (member.lead markers)) :
    (∃ token, member.mark? markers = some token ∧ word = token.toList) ∨
      IsOrdinary markers word := by
  have called : ∀ token ∈ markers.tokens, wordsIn (token.toList ++ "() ".toList) =
      [token.toList] := by
    intro token listed
    rw [wordsIn_word_append (legible.isWordText listed) rfl]
    rfl
  cases member with
  | marked function parameters =>
      rw [lead, called _ (by simp [Markers.tokens])] at found
      exact Or.inl ⟨_, rfl, List.mem_singleton.mp found⟩
  | labelled label function parameters =>
      have words : wordsIn (lead markers (labelled label function parameters)) =
          [markers.namedMessage.toList, label.toList] := by
        have opens : ∀ text : List Char, "(\"".toList ++ text = '(' :: '"' :: text := fun _ => rfl
        rw [lead, wordsIn_word_append (legible.isWordText (by simp [Markers.tokens])) rfl, opens,
          wordsIn_cons_of_not_isWord _ (by decide), wordsIn_cons_of_not_isWord _ (by decide),
          wordsIn_word_append fits.1.isWordText rfl]
        rfl
      rw [words] at found
      rcases List.mem_cons.mp found with mark | behind
      · exact Or.inl ⟨_, rfl, mark⟩
      · rw [List.mem_singleton.mp behind]
        exact Or.inr fits.1.isOrdinary
  | bare function parameters => cases found
  | property type name =>
      rw [lead, called _ (by simp [Markers.tokens])] at found
      exact Or.inl ⟨_, rfl, List.mem_singleton.mp found⟩

theorem mem_words_declared (legible : markers.Legible) {member : MemberModel}
    (fits : member.WellFormed markers) {word : List Char} (found : word ∈ wordsIn member.declared) :
    (member.isHandler = true ∧ word = "void".toList) ∨ IsOrdinary markers word := by
  have handler : ∀ {function : String} {parameters : List ParameterModel},
      IsName markers function → (∀ parameter ∈ parameters, parameter.WellFormed markers) →
      word ∈ wordsIn (printHandler function parameters) →
        word = "void".toList ∨ IsOrdinary markers word := by
    intro function parameters functionFits parametersFit member
    rw [wordsIn_printHandler functionFits] at member
    rcases List.mem_cons.mp member with void | later
    · exact Or.inl void
    · rcases List.mem_cons.mp later with name | tail
      · rw [name]
        exact Or.inr functionFits.isOrdinary
      · exact Or.inr (isOrdinary_of_mem_words_printTail legible parametersFit word tail)
  cases member with
  | marked function parameters =>
      exact (handler fits.1 fits.2 found).imp_left fun void => ⟨rfl, void⟩
  | labelled label function parameters =>
      exact (handler fits.2.1 fits.2.2 found).imp_left fun void => ⟨rfl, void⟩
  | bare function parameters =>
      exact (handler fits.1 fits.2 found).imp_left fun void => ⟨rfl, void⟩
  | property type name =>
      rw [declared, wordsIn_append_cons _ _ (by decide),
        wordsIn_word_append fits.2.isWordText rfl] at found
      rcases List.mem_append.mp found with inType | inName
      · exact Or.inr ((TypeModel.wordsIn_print type fits.1 word inType).isOrdinary legible)
      · have ending : wordsIn ";\n".toList = [] := by decide
        rw [ending] at inName
        rw [List.mem_singleton.mp inName]
        exact Or.inr fits.2.isOrdinary

/-- The words of a line: its marker, `void` for a function, and ordinary ones. -/
theorem mem_words_print (legible : markers.Legible) {member : MemberModel}
    (fits : member.WellFormed markers) {word : List Char}
    (found : word ∈ wordsIn (member.print markers)) :
    (∃ token, member.mark? markers = some token ∧ word = token.toList) ∨
      (member.isHandler = true ∧ word = "void".toList) ∨ IsOrdinary markers word := by
  rw [print_eq, wordsIn_append_of_ended _ (member.ended_lead markers)] at found
  rcases List.mem_append.mp found with inLead | inDeclaration
  · exact (mem_words_lead legible fits inLead).imp_right Or.inr
  · exact Or.inr (mem_words_declared legible fits inDeclaration)

end MemberModel

end Printing

end ScriptRegistrar
