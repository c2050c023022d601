import ScriptRegistrar.Config.Validation
import ScriptRegistrar.Proofs.HeadRecognition
import ScriptRegistrar.Proofs.Printing.ClassReading

/-!
# Scanning a printed header

The head of a printed class is recognised, its body ends at the brace printed behind it, and the
scan goes on at the next class.  A scan of a printed header therefore finds the records of its
models, whatever quiet text stands in front of their members.
-/

namespace ScriptRegistrar

open Text Text.Cursor Text.Recogniser

theorem Config.isIdentifier_of_validate {config : Config} (valid : config.validate = .ok ()) :
    ∀ setting ∈ config.identifiers, isIdentifier setting.2.toList = true := by
  apply isIdentifier_of_mem_identifiers
  cases complaint : config.complaint? with
  | none => rfl
  | some found => simp [validate, complaint] at valid

theorem Config.legible_of_validate {config : Config} (valid : config.validate = .ok ())
    (distinct : config.markers.tokens.Nodup)
    (noKeyword : ∀ token ∈ config.markers.tokens, token ∉ Printing.keywords) :
    config.markers.Legible := by
  refine ⟨?_, noKeyword, distinct⟩
  have identifiers := isIdentifier_of_validate valid
  simp only [Config.identifiers, List.forall_mem_cons] at identifiers
  obtain ⟨_, message, namedMessage, property, suppress, _⟩ := identifiers
  simpa only [Markers.tokens, List.forall_mem_cons] using
    ⟨message, namedMessage, property, suppress, by simp⟩

namespace Printing

/-- The signs on the line of a member that do not belong to a type. -/
def lineSigns : List Char :=
  ['(', ')', '"', ';', '\n']

/-- A character on the line of a member. -/
def IsLinePart (character : Char) : Prop :=
  isIdentifierChar character = true ∨ character ∈ typeSigns ∨ character ∈ lineSigns

variable {markers : Markers}

theorem IsTypePart.isLinePart {character : Char} (part : IsTypePart character) :
    IsLinePart character :=
  part.imp_right Or.inl

theorem isLinePart_of_isIdentifier {text : List Char} (identifier : isIdentifier text = true) :
    ∀ character ∈ text, IsLinePart character :=
  fun _ member => Or.inl (isIdentifierChar_of_mem identifier member)

theorem mem_printHandler {function : String} (fits : IsName markers function)
    {parameters : List ParameterModel}
    (fit : ∀ parameter ∈ parameters, parameter.WellFormed markers) :
    ∀ character ∈ printHandler function parameters, IsLinePart character := by
  intro character member
  rcases List.mem_append.mp member with void | space
  · exact isLinePart_of_isIdentifier (by decide) character void
  · rcases List.mem_cons.mp space with rfl | behind
    · exact Or.inr (Or.inl (by decide))
    · rcases List.mem_append.mp behind with name | opening
      · exact isLinePart_of_isIdentifier fits.identifier character name
      · rcases List.mem_cons.mp opening with rfl | tail
        · exact Or.inr (Or.inr (by decide))
        · rcases List.mem_append.mp tail with inside | ending
          · exact (isTypePart_of_mem_printParameters fit inside).isLinePart
          · have signs : ∀ sign ∈ ");\n".toList, sign ∈ lineSigns :=
              List.forall_iff_forall_mem.mp (by decide)
            exact Or.inr (Or.inr (signs character ending))

namespace MemberModel

theorem mem_lead (legible : markers.Legible) {member : MemberModel}
    (fits : member.WellFormed markers) :
    ∀ character ∈ member.lead markers, IsLinePart character := by
  have token : ∀ text ∈ markers.tokens, ∀ character ∈ text.toList, IsLinePart character :=
    fun text listed => isLinePart_of_isIdentifier (legible.identifier text listed)
  have signs : ∀ sign ∈ "() ".toList ++ ("(\"".toList ++ "\") ".toList),
      isIdentifierChar sign = true ∨ sign ∈ typeSigns ∨ sign ∈ lineSigns :=
    List.forall_iff_forall_mem.mp (by decide)
  obtain ⟨call, label⟩ := List.forall_mem_append.mp signs
  obtain ⟨quote, endQuote⟩ := List.forall_mem_append.mp label
  intro character found
  cases member with
  | marked function parameters =>
      rcases List.mem_append.mp found with mark | sign
      · exact token _ (by simp [Markers.tokens]) character mark
      · exact call character sign
  | labelled label function parameters =>
      simp only [lead, List.mem_append] at found
      rcases found with mark | sign | name | sign
      · exact token _ (by simp [Markers.tokens]) character mark
      · exact quote character sign
      · exact isLinePart_of_isIdentifier fits.1.identifier character name
      · exact endQuote character sign
  | bare function parameters => cases found
  | property type name =>
      rcases List.mem_append.mp found with mark | sign
      · exact token _ (by simp [Markers.tokens]) character mark
      · exact call character sign

theorem mem_declared {member : MemberModel} (fits : member.WellFormed markers) :
    ∀ character ∈ member.declared, IsLinePart character := by
  intro character found
  cases member with
  | marked function parameters => exact mem_printHandler fits.1 fits.2 character found
  | labelled label function parameters =>
      exact mem_printHandler fits.2.1 fits.2.2 character found
  | bare function parameters => exact mem_printHandler fits.1 fits.2 character found
  | property type name =>
      have ending : ∀ sign ∈ ";\n".toList, sign ∈ lineSigns :=
        List.forall_iff_forall_mem.mp (by decide)
      simp only [declared, List.mem_append, List.mem_cons] at found
      rcases found with inType | rfl | inName | sign
      · exact (TypeModel.mem_print type fits.1 character inType).isLinePart
      · exact Or.inr (Or.inl (by decide))
      · exact isLinePart_of_isIdentifier fits.2.identifier character inName
      · exact Or.inr (Or.inr (ending character sign))

theorem mem_print (legible : markers.Legible) {member : MemberModel}
    (fits : member.WellFormed markers) :
    ∀ character ∈ member.print markers, IsLinePart character := by
  rw [print_eq]
  exact List.forall_mem_append.mpr ⟨mem_lead legible fits, mem_declared fits⟩

end MemberModel

theorem not_isLinePart {character : Char} (separates : isIdentifierChar character = false)
    (noSign : character ∉ typeSigns ++ lineSigns) : ¬ IsLinePart character := by
  rintro (letter | sign)
  · rw [separates] at letter
    exact Bool.noConfusion letter
  · exact noSign (List.mem_append.mpr sign)

namespace ClassModel

theorem balanced_printBody (legible : markers.Legible) {setup : List Char}
    (quiet : IsQuiet markers setup) {model : ClassModel} (fits : model.WellFormed markers) :
    Bracketed.Balanced '\x7b' '\x7d' (model.printBody markers setup) := by
  have line : ∀ text : List Char, (∀ character ∈ text, IsLinePart character) →
      Bracketed.Balanced '\x7b' '\x7d' text := by
    intro text parts
    exact .of_not_mem (fun member => not_isLinePart (by decide) (by decide) (parts _ member))
      (fun member => not_isLinePart (by decide) (by decide) (parts _ member))
  refine .other (by decide) (by decide) (quiet.balanced.append (.append (line _ ?_) (line _ ?_)))
  · intro character found
    obtain ⟨member, listed, inLine⟩ := List.mem_flatMap.mp found
    exact member.mem_print legible (fits.members member listed) character inLine
  · intro character found
    split at found
    · rcases List.mem_append.mp found with token | lineFeed
      · exact isLinePart_of_isIdentifier
          (legible.identifier markers.suppress (by simp [Markers.tokens])) character token
      · rw [List.mem_singleton.mp lineFeed]
        exact Or.inr (Or.inr (by decide))
    · cases found

end ClassModel

end Printing

namespace ClassHead

open Printing

variable {markers : Markers}

theorem words_name {name : String} (fits : IsName markers name) :
    words (name.toList ++ [' ']) = [name.toList] := by
  have unbroken := ParameterModel.not_isBlank_of_mem_name fits
  rw [words, fields_append_separator isBlank name.toList [] (by decide),
    fields_eq_singleton isBlank name.toList unbroken]
  simp [fields, fits.isWordText.1]

/-- The name in a printed head runs up to the colon. -/
theorem declaration_name {name : String} (fits : IsName markers name) (passed rest : List Char) :
    (name.toList ++ ' ' :: ':' :: rest).takeWhile (fun next => isWord next || isBlank next) =
        name.toList ++ [' '] ∧
      (Cursor.mk passed (name.toList ++ ' ' :: ':' :: rest)).passWhile
          (fun next => isWord next || isBlank next) =
        ⟨' ' :: (name.toList.reverse ++ passed), ':' :: rest⟩ := by
  have run : ∀ character ∈ name.toList ++ [' '], (isWord character || isBlank character) = true := by
    intro character member
    rcases List.mem_append.mp member with letter | space
    · simp [fits.isWordText.2 character letter]
    · rw [List.mem_singleton.mp space]
      decide
  have stops : (':' :: rest).head?.any (fun next => isWord next || isBlank next) = false := by
    simp only [List.head?_cons, Option.any_some]
    decide
  have passes := fun before => @passWhile_append before _ (':' :: rest) _ run stops
  simp only [List.append_assoc, List.singleton_append] at passes
  refine ⟨?_, by simpa using passes passed⟩
  have reversed := congrArg Cursor.passed (passes [])
  simpa only [passWhile, List.append_nil, List.reverse_inj] using reversed

theorem behindBlanks_space {rest : List Char} (notBlank : rest.head?.any isBlank = false)
    (passed : List Char) : behindBlanks passed (' ' :: rest) = [⟨' ' :: passed, rest⟩] := by
  have blank : isBlank ' ' = true := by decide
  rw [behindBlanks, if_pos blank]
  cases rest with
  | nil => rfl
  | cons next others =>
      have solid : isBlank next = false := by simpa using notBlank
      rw [behindBlanks, if_neg (by simp [solid])]
      rfl

theorem base?_word {base rest : List Char} (isWordText : IsWordText base)
    (separated : rest.head?.any isWord = false) (passed : List Char) :
    base? base ⟨passed, base ++ rest⟩ = some ⟨base.reverse ++ passed, rest⟩ := by
  simp only [base?, literal?_append, Option.bind_eq_bind, Option.bind_some,
    isBoundary_behind_word isWordText separated, if_true]

/-- The head of a printed class is read up to the space in front of its brace. -/
theorem read?_printHead {model : ClassModel} (fits : IsName markers model.name)
    {baseClass : String} (base : isIdentifier baseClass.toList = true) {passed : List Char}
    (outside : NotInWord passed) (rest : List Char) :
    ∃ behind, read? baseClass.toList ⟨passed, model.printHead baseClass ++ rest⟩ =
      some (⟨model.name, byteLength passed, byteLength behind⟩, ⟨behind, ' ' :: rest⟩) := by
  have shape : model.printHead baseClass ++ rest = "class".toList ++ ' ' :: (model.name.toList ++
      ' ' :: ':' :: ' ' :: ("public".toList ++ ' ' :: (baseClass.toList ++ ' ' :: rest))) := by
    have parts : model.printHead baseClass = "class ".toList ++ (model.name.toList ++
        (" : public ".toList ++ (baseClass.toList ++ [' ']))) := rfl
    simp [parts]
  have boundary := @isBoundary_marker passed "class".toList outside
    ⟨by decide, List.all_eq_true.mp (by decide)⟩
    (' ' :: (model.name.toList ++ ' ' :: ':' :: ' ' ::
      ("public".toList ++ ' ' :: (baseClass.toList ++ ' ' :: rest))))
  have colon : ∀ before after, (Cursor.mk before (':' :: after)).sign? ":" =
      some ⟨':' :: before, after⟩ := fun before after => literal?_append before ":".toList after
  have access : ∀ before after, (Cursor.mk before ("public".toList ++ after)).sign? "public" =
      some ⟨"public".toList.reverse ++ before, after⟩ :=
    fun before after => literal?_append before "public".toList after
  have keyword : ∀ after, ((Cursor.mk passed ("class".toList ++ after)).sign? "class" <|>
      (Cursor.mk passed ("class".toList ++ after)).sign? "struct") =
        some ⟨"class".toList.reverse ++ passed, after⟩ := by
    intro after
    rw [Cursor.sign?, literal?_append]
    rfl
  have baseWord := isWordText_of_isIdentifier base
  have unbroken := head?_isBlank_of_isIdentifier base (' ' :: rest)
  obtain ⟨nameRun, nameEnd⟩ := declaration_name fits
    (' ' :: ("class".toList.reverse ++ passed))
    (' ' :: ("public".toList ++ ' ' :: (baseClass.toList ++ ' ' :: rest)))
  refine ⟨baseClass.toList.reverse ++ ' ' :: ("public".toList.reverse ++ ' ' :: ':' :: ' ' ::
    (model.name.toList.reverse ++ ' ' :: ("class".toList.reverse ++ passed))), ?_⟩
  have accessBlanks := fun before => @passBlanks_space before
    ("public".toList ++ ' ' :: (baseClass.toList ++ ' ' :: rest)) rfl
  have only : declaredName? [model.name.toList] = some model.name.toList := rfl
  rw [shape, read?]
  simp only [boundary, guard, if_true, Option.bind_eq_bind, Option.pure_def, Option.bind_some,
    keyword, blanks?_space (fits.head?_isBlank _), nameRun, nameEnd, words_name fits, only, colon,
    accessBlanks, access, behindBlanks_space unbroken, List.findSome?_cons,
    @base?_word _ (' ' :: rest) baseWord rfl, String.ofList_toList]
  rfl

end ClassHead

theorem ClassBody.after_braces (className : String) (passed : List Char) {text : List Char}
    (balanced : Bracketed.Balanced '\x7b' '\x7d' text) (rest : List Char) :
    after className ⟨passed, ' ' :: '\x7b' :: (text ++ '\x7d' :: rest)⟩ =
      .ok ⟨text, byteLength (' ' :: passed),
        ⟨'\x7d' :: text.reverse ++ '\x7b' :: ' ' :: passed, rest⟩⟩ := by
  have opening := @passWhile_append passed [' '] ('\x7b' :: (text ++ '\x7d' :: rest))
    (· ≠ '\x7b') (List.forall_mem_singleton.mpr rfl) (by simp)
  have closed := Bracketed.close?_of_balanced (by decide) balanced rest
  rw [List.singleton_append, List.reverse_singleton, List.singleton_append] at opening
  simp only [after, opening, Bracketed.braces?, closed]
  rfl

namespace Scanner

open Printing ClassHead

/-- A scan of printed classes finds the records of their models, with the types that are read.
What stands in front of the first class may be anything without a word that a head begins with. -/
theorem scanFrom_printWith {config : Config} (legible : config.markers.Legible)
    (base : isIdentifier config.baseClass.toList = true) (table : SignatureTable) (header : Path)
    {classes : List (ClassModel × List Char)}
    (fit : ∀ entry ∈ classes, entry.1.WellFormed config.markers ∧ IsQuiet config.markers entry.2)
    {passed gap : List Char} (outside : NotInWord passed) (ended : NotInWord gap.reverse)
    (clear : ∀ word ∈ wordsIn gap, ¬ IsClassKeyword word) :
    (withTable config table).scanFrom header
        ⟨passed, gap ++ classes.flatMap fun entry => entry.1.printWith config entry.2⟩ =
      { records := classes.map fun entry => entry.1.recordOf readTypes table header
        failure := none } := by
  have begins := begins_read? (withTable config table).baseClass.toList
  induction classes generalizing passed gap with
  | nil =>
      apply scanFrom_of_none
      rw [List.flatMap_nil, List.append_nil]
      exact firstFrom?_eq_none_of_clear begins not_isClassKeyword_nil outside clear
  | cons entry others induction =>
      obtain ⟨⟨modelFits, quiet⟩, othersFit⟩ := List.forall_mem_cons.mp fit
      obtain ⟨model, setup⟩ := entry
      obtain ⟨behind, head⟩ := read?_printHead modelFits.name base (ended.append outside)
        ('\x7b' :: (model.printBody config.markers setup ++ '\x7d' :: (";\n".toList ++
          others.flatMap fun entry => entry.1.printWith config entry.2)))
      have next : ClassHead.next? (withTable config table).baseClass
          ⟨passed, gap ++ ((model, setup) :: others).flatMap fun entry =>
            entry.1.printWith config entry.2⟩ =
          some (⟨model.name, byteLength (gap.reverse ++ passed), byteLength behind⟩,
            ⟨behind, ' ' :: '\x7b' :: (model.printBody config.markers setup ++ '\x7d' ::
              (";\n".toList ++ others.flatMap fun entry =>
                entry.1.printWith config entry.2))⟩) := by
        rw [ClassHead.next?, first?, firstFrom?_append_of_ended begins not_isClassKeyword_nil _ ended
          outside clear]
        apply firstFrom?_eq_some_of_read
        rw [List.flatMap_cons, ClassModel.printWith, List.append_assoc, List.cons_append,
          List.append_assoc, List.cons_append]
        exact head
      have body := ClassBody.after_braces model.name behind
        (model.balanced_printBody legible quiet modelFits)
        (";\n".toList ++ others.flatMap fun entry => entry.1.printWith config entry.2)
      have between : ∀ word ∈ wordsIn ";\n".toList, ¬ IsClassKeyword word := by
        have nothing : wordsIn ";\n".toList = [] := by decide
        rw [nothing]
        exact List.forall_mem_nil _
      have rest := @induction othersFit ('\x7d' :: (model.printBody config.markers setup).reverse ++
        '\x7b' :: ' ' :: behind) ";\n".toList (notInWord_cons (by decide))
          (show NotInWord ['\n', ';'] from notInWord_cons (by decide)) between
      have first := @record_printBody (withTable config table) legible setup quiet model modelFits
        header
      rw [scanFrom_of_next? header next body]
      simp only [rest, List.map_cons]
      exact congrArg (fun record => HeaderScan.mk (record :: _) none) first

/-- Every header of the grammar is read back: a scan of the printed classes finds one record for
each class, in order, and it is the record of its model, as long as no parameter list opens
`2 ^ 32` brackets. -/
theorem scanHeader_print {config : Config} (valid : config.validate = .ok ())
    (distinct : config.markers.tokens.Nodup)
    (noKeyword : ∀ token ∈ config.markers.tokens, token ∉ keywords)
    {classes : List ClassModel} (fit : ∀ model ∈ classes, model.WellFormed config.markers)
    (few : ∀ model ∈ classes, ∀ member ∈ model.members,
      ParameterList.HasFewBrackets (printParameters member.parameters))
    (table : SignatureTable) (header : Path) :
    (withTable config table).scanHeader (String.ofList (classes.flatMap (·.print config))) header =
      { records := classes.map (·.record table header), failure := none } := by
  have legible := Config.legible_of_validate valid distinct noKeyword
  have base := Config.isIdentifier_of_validate valid ("base_class", config.baseClass)
    (by simp [Config.identifiers])
  have unset : classes.flatMap (·.print config) =
      (classes.map fun model => (model, ([] : List Char))).flatMap
        fun entry => entry.1.printWith config entry.2 := by
    rw [List.flatMap_map]
    rfl
  have scanned := @scanFrom_printWith config legible base table header
    (classes.map fun model => (model, [])) ?_ [] [] notInWord_nil notInWord_nil (by simp)
  · have records : classes.map (·.record table header) =
        classes.map (·.recordOf readTypes table header) := by
      refine List.map_congr_left fun model listed => ?_
      refine (ClassModel.recordOf_congr (fun member inModel => ?_) table header).symm
      exact readTypes_eq_declaredTypes
        ((fit model listed).members member inModel).parameters (few model listed member inModel)
    rw [scanHeader, String.toList_ofList, unset, Cursor.start, records]
    simpa [List.map_map, Function.comp_def] using scanned
  · intro entry member
    obtain ⟨model, listed, rfl⟩ := List.mem_map.mp member
    exact ⟨fit model listed, isQuiet_nil config.markers⟩

theorem scanHeader_print_player :
    let player : ClassModel := ⟨"Player", false,
      [.bare "Update" [], .marked "Jump" [⟨.named true "Hit" [] false [] [.reference], "hit"⟩],
        .property (.named false "int" [] false [] []) "lives"]⟩
    let debris : ClassModel := ⟨"Debris", true, [.bare "Update" []]⟩
    (withTable {} .engineDefault).scanHeader
        (String.ofList ([player, debris].flatMap (·.print {}))) ⟨"Player.h"⟩ =
      { records := [
          { name := "Player", header := ⟨"Player.h"⟩
            messages := [⟨"Jump", "Jump", ["Hit"], .marker⟩, ⟨"Update", "Update", [], .signature⟩]
            properties := [⟨"lives", "int"⟩] },
          { name := "Debris", header := ⟨"Player.h"⟩, excluded := true }] } := by
  have named : ∀ name ∈ ["Player", "Debris", "Update", "Jump", "hit", "lives"],
      IsName {} name := by
    have listed : ∀ name ∈ ["Player", "Debris", "Update", "Jump", "hit", "lives"],
        isIdentifier name.toList = true ∧ name ∉ keywords ∧ name ∉ ["final", "override"] ∧
          name ∉ Markers.tokens {} := by decide
    exact fun name member => ⟨(listed name member).1, (listed name member).2.1,
      (listed name member).2.2.1, (listed name member).2.2.2⟩
  have typed : ∀ name ∈ ["Hit", "int"], IsTypeName {} name := by
    have listed : ∀ name ∈ ["Hit", "int"], isIdentifier name.toList = true ∧
        (name ∈ keywords → name ∈ typeKeywords) ∧ name ∉ ["final", "override"] ∧
          name ∉ Markers.tokens {} := by decide
    exact fun name member => ⟨(listed name member).1, (listed name member).2.1,
      (listed name member).2.2.1, (listed name member).2.2.2⟩
  intro player debris
  refine (@scanHeader_print {} rfl (by decide) (by decide) [player, debris] ?_ (by decide)
    .engineDefault ⟨"Player.h"⟩).trans (by decide)
  rw [List.forall_mem_cons, List.forall_mem_cons]
  refine ⟨⟨named _ (by simp [player]), ?_⟩, ⟨named _ (by simp [debris]), ?_⟩, by simp⟩
  · simp [player, MemberModel.WellFormed, ParameterModel.WellFormed, TypeModel.WellFormed,
      TypeModel.AllWellFormed, named, typed]
  · simp [debris, MemberModel.WellFormed, named]

end Scanner

end ScriptRegistrar
