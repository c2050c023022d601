import ScriptRegistrar.Proofs.Bracketing
import ScriptRegistrar.Proofs.MemberRecognition
import ScriptRegistrar.Proofs.Printing.MemberWords

/-!
# Reading printed members

At the start of the line of a handler or a property, the recogniser of its marker reads just this
member.  A handler is read up to its opening parenthesis, and the declaration is complete with the
printed parameters; the type of a property is not cut short, because no declarator stands in it.
-/

namespace ScriptRegistrar

open Text Text.Cursor Text.Recogniser

namespace Printing

variable {markers : Markers}

theorem isTypePart_of_mem_printParameters {parameters : List ParameterModel}
    (fit : ∀ parameter ∈ parameters, parameter.WellFormed markers) {character : Char}
    (member : character ∈ printParameters parameters) : IsTypePart character := by
  cases parameters with
  | nil => cases member
  | cons first rest =>
      obtain ⟨firstFits, restFit⟩ := List.forall_mem_cons.mp fit
      rcases List.mem_append.mp member with here | behind
      · exact first.isTypePart_of_mem_print firstFits here
      · obtain ⟨parameter, listed, found⟩ := List.mem_flatMap.mp behind
        rcases List.mem_cons.mp found with rfl | later
        · exact Or.inr (by decide)
        · rcases List.mem_cons.mp later with rfl | inside
          · exact Or.inr (by decide)
          · exact parameter.isTypePart_of_mem_print (restFit parameter listed) inside

theorem not_isTypePart {character : Char} (separates : isIdentifierChar character = false)
    (noSign : character ∉ typeSigns) : ¬ IsTypePart character := by
  rintro (letter | sign)
  · rw [separates] at letter
    exact Bool.noConfusion letter
  · exact noSign sign

theorem head?_isBlank_of_isIdentifier {text : List Char} (identifier : isIdentifier text = true)
    (rest : List Char) : (text ++ rest).head?.any isBlank = false := by
  obtain ⟨first, others, shape, start, _⟩ := isIdentifier_iff.mp identifier
  rw [shape]
  exact isBlank_of_isIdentifierChar (isIdentifierChar_of_isIdentifierStart start)

theorem IsName.head?_isBlank {name : String} (fits : IsName markers name) (rest : List Char) :
    (name.toList ++ rest).head?.any isBlank = false :=
  head?_isBlank_of_isIdentifier fits.identifier rest

end Printing

/-- A sign that comes next, with no blank before it. -/
theorem sign?_passBlanks_append (passed : List Char) {sign : String} (rest : List Char)
    (notBlank : (sign.toList ++ rest).head?.any isBlank = false) :
    (Cursor.mk passed (sign.toList ++ rest)).passBlanks.sign? sign =
      some ⟨sign.toList.reverse ++ passed, rest⟩ := by
  simp [passBlanks_of_not_isBlank notBlank, Cursor.sign?]

@[simp] theorem sign?_passBlanks_opening (passed rest : List Char) :
    (Cursor.mk passed ('(' :: rest)).passBlanks.sign? "(" = some ⟨'(' :: passed, rest⟩ :=
  @sign?_passBlanks_append passed "(" rest rfl

@[simp] theorem sign?_passBlanks_closing (passed rest : List Char) :
    (Cursor.mk passed (')' :: rest)).passBlanks.sign? ")" = some ⟨')' :: passed, rest⟩ :=
  @sign?_passBlanks_append passed ")" rest rfl

@[simp] theorem sign?_passBlanks_quote (passed rest : List Char) :
    (Cursor.mk passed ('"' :: rest)).passBlanks.sign? "\"" = some ⟨'"' :: passed, rest⟩ :=
  @sign?_passBlanks_append passed "\"" rest rfl

theorem isBoundary_marker {passed token : List Char} (outside : NotInWord passed)
    (isWordText : IsWordText token) (rest : List Char) :
    (Cursor.mk passed (token ++ rest)).isBoundary = true := by
  obtain ⟨first, others, rfl⟩ := List.exists_cons_of_ne_nil isWordText.1
  exact isBoundary_of_word outside (isWordText.2 first List.mem_cons_self)

theorem isBoundary_behind_word {word rest : List Char} (isWordText : IsWordText word)
    (separated : rest.head?.any isWord = false) (passed : List Char) :
    (Cursor.mk (word.reverse ++ passed) rest).isBoundary = true := by
  obtain ⟨last, others, reversed⟩ := List.exists_cons_of_ne_nil
    (show word.reverse ≠ [] by simpa using isWordText.1)
  have letter : isWord last = true :=
    isWordText.2 last (List.mem_reverse.mp (by rw [reversed]; exact List.mem_cons_self))
  simp [Cursor.isBoundary, Text.isBoundary, reversed, letter, separated]

namespace Handler.Head

open Printing

variable {markers : Markers}

/-- Whether a recogniser reads a line up to the opening parenthesis, with a printed parameter list
behind it. -/
def ReadsLine (read : Recogniser Head) (label : List Char) (function : String)
    (parameters : List ParameterModel) (line : List Char) : Prop :=
  ∃ before, line = before ++ printTail parameters ∧ NotInWord before.reverse ∧
    ∀ passed rest, NotInWord passed →
      read ⟨passed, line ++ rest⟩ = some (⟨label, function.toList, printTail parameters ++ rest⟩,
        ⟨before.reverse ++ passed, printTail parameters ++ rest⟩)

theorem readsLine_readVoid? {function : String} (fits : IsName markers function)
    (label : List Char) (parameters : List ParameterModel) :
    ReadsLine (readVoid? label) label function parameters (printHandler function parameters) := by
  refine ⟨"void".toList ++ ' ' :: (function.toList ++ ['(']), by simp [printHandler],
    by simp [NotInWord]; decide, ?_⟩
  intro passed rest _
  have void := literal?_append passed "void".toList
    (' ' :: (function.toList ++ '(' :: (printTail parameters ++ rest)))
  have blank := @blanks?_space ("void".toList.reverse ++ passed)
    (function.toList ++ '(' :: (printTail parameters ++ rest)) (fits.head?_isBlank _)
  have word := @word?_append (' ' :: ("void".toList.reverse ++ passed)) function.toList
    ('(' :: (printTail parameters ++ rest)) fits.isWordText.1 fits.isWordText.2 rfl
  have opens := literal?_append (function.toList.reverse ++ ' ' :: ("void".toList.reverse ++ passed))
    "(".toList (printTail parameters ++ rest)
  have noBlank := @passBlanks_of_not_isBlank
    (function.toList.reverse ++ ' ' :: ("void".toList.reverse ++ passed))
    ('(' :: (printTail parameters ++ rest)) rfl
  have shape : printHandler function parameters ++ rest =
      "void".toList ++ (' ' :: (function.toList ++ '(' :: (printTail parameters ++ rest))) := by
    simp [printHandler]
  have sign : (Cursor.mk (function.toList.reverse ++ ' ' :: ("void".toList.reverse ++ passed))
      ('(' :: (printTail parameters ++ rest))).literal? "(".toList = _ := opens
  simp only [readVoid?, shape, Cursor.sign?, void, Option.bind_eq_bind, Option.bind_some, blank,
    word, noBlank, sign]
  simp

theorem read?_printHandler (label passed : List Char) (function : String)
    (parameters : List ParameterModel) (rest : List Char) :
    read? label ⟨passed, printHandler function parameters ++ rest⟩ =
      readVoid? label ⟨passed, printHandler function parameters ++ rest⟩ :=
  read?_eq_readVoid? label _

theorem isBoundary_printHandler {passed : List Char} (outside : NotInWord passed)
    (function : String) (parameters : List ParameterModel) (rest : List Char) :
    (Cursor.mk passed (printHandler function parameters ++ rest)).isBoundary = true :=
  isBoundary_of_word outside rfl

@[simp] theorem head?_printHandler_append (function : String) (parameters : List ParameterModel)
    (rest : List Char) :
    (printHandler function parameters ++ rest).head?.any isBlank = false := rfl

theorem readsLine_readBareVoid? {function : String} (fits : IsName markers function)
    (parameters : List ParameterModel) :
    ReadsLine readBareVoid? [] function parameters (printHandler function parameters) := by
  obtain ⟨before, parts, ended, reads⟩ := readsLine_readVoid? fits [] parameters
  refine ⟨before, parts, ended, ?_⟩
  intro passed rest outside
  rw [readBareVoid?, if_pos (isBoundary_printHandler outside function parameters rest)]
  exact reads passed rest outside

/-- Something that a recogniser passes before a handler is part of what it reads. -/
theorem ReadsLine.behind {read before? : Recogniser Head} {label : List Char} {function : String}
    {parameters : List ParameterModel} {line between : List Char}
    (reads : ReadsLine read label function parameters line) (separates : NotInWord between.reverse)
    (leads : ∀ passed rest, NotInWord passed → before? ⟨passed, between ++ (line ++ rest)⟩ =
      read ⟨between.reverse ++ passed, line ++ rest⟩) :
    ReadsLine before? label function parameters (between ++ line) := by
  obtain ⟨before, parts, ended, found⟩ := reads
  refine ⟨between ++ before, by rw [parts, List.append_assoc], ?_, ?_⟩
  · rw [List.reverse_append]
    exact ended.append separates
  · intro passed rest outside
    rw [List.append_assoc, leads passed rest outside, found _ rest (separates.append outside)]
    simp

theorem readsLine_readMarked? (legible : markers.Legible) {function : String}
    (fits : IsName markers function) (parameters : List ParameterModel) :
    ReadsLine (readMarked? markers.message.toList) [] function parameters
      ((MemberModel.marked function parameters).print markers) := by
  have isWordText := legible.isWordText (show markers.message ∈ markers.tokens by simp [Markers.tokens])
  rw [MemberModel.print_eq, MemberModel.declared]
  refine (readsLine_readVoid? fits [] parameters).behind (MemberModel.ended_lead ..) ?_
  intro passed rest outside
  have shape : MemberModel.lead markers (.marked function parameters) ++
      (printHandler function parameters ++ rest) = markers.message.toList ++
        '(' :: ')' :: ' ' :: (printHandler function parameters ++ rest) := by
    simp [MemberModel.lead]
  have boundary := isBoundary_marker outside isWordText
    ('(' :: ')' :: ' ' :: (printHandler function parameters ++ rest))
  simp only [readMarked?, shape, boundary, guard, if_true, Option.bind_eq_bind,
    Option.pure_def, Option.bind_some, literal?_append, sign?_passBlanks_opening, sign?_passBlanks_closing,
    passBlanks_space (head?_printHandler_append function parameters rest), read?_printHandler]
  simp [MemberModel.lead]

theorem readsLine_readNamed? (legible : markers.Legible) {label function : String}
    (labelFits : IsName markers label) (fits : IsName markers function)
    (parameters : List ParameterModel) :
    ReadsLine (readNamed? markers.namedMessage.toList) label.toList function parameters
      ((MemberModel.labelled label function parameters).print markers) := by
  have isWordText :=
    legible.isWordText (show markers.namedMessage ∈ markers.tokens by simp [Markers.tokens])
  have unquoted : ∀ character ∈ label.toList, decide (character ≠ '"') = true := by
    intro character member
    have letter := isIdentifierChar_of_mem labelFits.identifier member
    apply decide_eq_true
    rintro rfl
    exact absurd letter (by decide)
  rw [MemberModel.print_eq, MemberModel.declared]
  refine (readsLine_readVoid? fits label.toList parameters).behind (MemberModel.ended_lead ..) ?_
  intro passed rest outside
  have shape : MemberModel.lead markers (.labelled label function parameters) ++
      (printHandler function parameters ++ rest) = markers.namedMessage.toList ++
        '(' :: '"' :: (label.toList ++ '"' :: ')' :: ' ' ::
          (printHandler function parameters ++ rest)) := by
    simp [MemberModel.lead]
  have boundary := isBoundary_marker outside isWordText ('(' :: '"' :: (label.toList ++
    '"' :: ')' :: ' ' :: (printHandler function parameters ++ rest)))
  have quoted : ∀ before, (Cursor.mk before (label.toList ++
      '"' :: ')' :: ' ' :: (printHandler function parameters ++ rest))).passWhile (· ≠ '"') =
        ⟨label.toList.reverse ++ before,
          '"' :: ')' :: ' ' :: (printHandler function parameters ++ rest)⟩ :=
    fun _ => passWhile_append unquoted rfl
  have name : (label.toList ++ '"' :: ')' :: ' ' ::
      (printHandler function parameters ++ rest)).takeWhile (· ≠ '"') = label.toList := by
    rw [List.takeWhile_append_of_pos unquoted]
    simp
  have endQuote : ∀ before, (Cursor.mk before
      ('"' :: ')' :: ' ' :: (printHandler function parameters ++ rest))).sign? "\"" =
        some ⟨'"' :: before, ')' :: ' ' :: (printHandler function parameters ++ rest)⟩ :=
    fun before => literal?_append before "\"".toList _
  simp only [readNamed?, shape, boundary, guard, if_true, Option.bind_eq_bind, Option.pure_def,
    Option.bind_some, literal?_append, sign?_passBlanks_opening, sign?_passBlanks_quote, quoted,
    name, endQuote, sign?_passBlanks_closing,
    passBlanks_space (head?_printHandler_append function parameters rest), read?_printHandler]
  simp [MemberModel.lead]

/-- The declaration of a printed handler is complete. -/
theorem complete?_printTail {parameters : List ParameterModel}
    (fit : ∀ parameter ∈ parameters, parameter.WellFormed markers)
    (label function rest : List Char) :
    complete? ⟨label, function, printTail parameters ++ rest⟩ =
      some ⟨label, function, printParameters parameters⟩ := by
  have noSign : ∀ character, ¬ IsTypePart character → character ∉ printParameters parameters :=
    fun _ noPart member => noPart (isTypePart_of_mem_printParameters fit member)
  have balanced := Bracketed.Balanced.of_not_mem
    (noSign '(' (not_isTypePart (by decide) (by decide)))
    (noSign ')' (not_isTypePart (by decide) (by decide)))
  have closed := Bracketed.close?_of_balanced (by decide) balanced (";\n".toList ++ rest)
  have shape : printTail parameters ++ rest =
      printParameters parameters ++ ')' :: (";\n".toList ++ rest) := by
    simp [printTail]
  have ends : endsDeclaration (";\n".toList ++ rest) = true := rfl
  simp only [complete?, Bracketed.parentheses?, shape, closed, Option.bind_eq_bind,
    Option.bind_some, ends]
  rfl

/-- What a recogniser reads in a line is the first of what it finds; the parameters hold no word
that it begins with. -/
theorem declarations_of_readsLine {known : List Char → Prop} {read : Recogniser Head}
    (advances : Advances read) (begins : BeginsWith known read) (unknown : ¬ known [])
    (ordinary : ∀ word, IsOrdinary markers word → ¬ known word) (legible : markers.Legible)
    {label : List Char} {function : String} {parameters : List ParameterModel}
    (fit : ∀ parameter ∈ parameters, parameter.WellFormed markers) {line : List Char}
    (reads : ReadsLine read label function parameters line) {passed : List Char}
    (outside : NotInWord passed) (rest : List Char) :
    (occurrences read ⟨passed, line ++ rest⟩).filterMap complete? =
      ⟨label, function.toList, printParameters parameters⟩ ::
        (occurrences read ⟨line.reverse ++ passed, rest⟩).filterMap complete? := by
  obtain ⟨before, parts, ended, found⟩ := reads
  have clear : ∀ word ∈ wordsIn (printTail parameters), ¬ known word :=
    fun word member => ordinary word (isOrdinary_of_mem_words_printTail legible fit word member)
  have tailEnds : NotInWord (printTail parameters).reverse := by
    simp [printTail, NotInWord]
    decide
  rw [occurrences_of_read advances (found passed rest outside),
    List.filterMap_cons_some (complete?_printTail fit label function.toList rest),
    occurrences_append_of_ended advances begins unknown rest tailEnds (ended.append outside) clear,
    parts, List.reverse_append, List.append_assoc]

end Handler.Head

end ScriptRegistrar
