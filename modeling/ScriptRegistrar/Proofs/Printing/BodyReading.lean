import ScriptRegistrar.Proofs.Printing.PropertyReading

/-!
# Searching a printed body

A search of a printed body finds the members it is for, in their order, and nothing else: it reads
what stands in the lines of these members and passes over the other lines.  Text in front of the
members makes no difference if it is quiet, which the body of a constructor may be.
-/

namespace ScriptRegistrar.Printing

open Text Text.Cursor Text.Recogniser Handler

/-- Text in front of the members that no search of a class body is for, and that closes the braces
it opens. -/
structure IsQuiet (markers : Markers) (setup : List Char) : Prop where
  ordinary : ∀ word ∈ wordsIn setup, IsOrdinary markers word
  ended : NotInWord setup.reverse
  balanced : Bracketed.Balanced '\x7b' '\x7d' setup

theorem isQuiet_nil (markers : Markers) : IsQuiet markers [] :=
  ⟨by simp, notInWord_nil, .nil⟩

/-- Whether a search of a printed line finds what `pick` takes from the member on it. -/
def FindsInLines (markers : Markers) (read : Recogniser α) (select : α → Option β)
    (pick : MemberModel → Option β) : Prop :=
  ∀ member : MemberModel, member.WellFormed markers → ∀ passed rest, NotInWord passed →
    (occurrences read ⟨passed, member.print markers ++ rest⟩).filterMap select =
      (pick member).toList ++
        (occurrences read ⟨(member.print markers).reverse ++ passed, rest⟩).filterMap select

variable {markers : Markers}

theorem IsQuiet.ended_line {setup : List Char} (quiet : IsQuiet markers setup) :
    NotInWord ('\n' :: setup).reverse := by
  rw [List.reverse_cons]
  exact quiet.ended.append (notInWord_cons (by decide))

theorem occurrences_print_of_clear {known : List Char → Prop} {read : Recogniser α}
    (advances : Advances read) (begins : BeginsWith known read) (unknown : ¬ known [])
    {member : MemberModel} (clear : ∀ word ∈ wordsIn (member.print markers), ¬ known word)
    {passed : List Char} (outside : NotInWord passed) (rest : List Char) :
    occurrences read ⟨passed, member.print markers ++ rest⟩ =
      occurrences read ⟨(member.print markers).reverse ++ passed, rest⟩ :=
  occurrences_append_of_ended advances begins unknown rest
    (member.ended_print markers) outside clear

namespace FindsInLines

variable {read : Recogniser α} {select : α → Option β} {pick : MemberModel → Option β}

/-- A search of several lines finds what is picked from each, in order. -/
theorem members (finds : FindsInLines markers read select pick) {lines : List MemberModel}
    (fit : ∀ member ∈ lines, member.WellFormed markers) {passed : List Char}
    (outside : NotInWord passed) (rest : List Char) :
    (occurrences read ⟨passed, lines.flatMap (·.print markers) ++ rest⟩).filterMap select =
      lines.filterMap pick ++ (occurrences read
        ⟨(lines.flatMap (·.print markers)).reverse ++ passed, rest⟩).filterMap select := by
  induction lines generalizing passed with
  | nil => rfl
  | cons member others induction =>
      obtain ⟨memberFits, othersFit⟩ := List.forall_mem_cons.mp fit
      rw [List.flatMap_cons, List.append_assoc, finds member memberFits passed _ outside,
        induction othersFit ((member.ended_print markers).append outside), List.reverse_append,
        List.append_assoc, ← List.append_assoc]
      congr 1
      cases picked : pick member <;> simp [picked]

/-- A search of the body of a class that does not opt out. -/
theorem body (finds : FindsInLines markers read select pick) {known : List Char → Prop}
    (advances : Advances read) (begins : BeginsWith known read) (unknown : ¬ known [])
    (ordinary : ∀ word, IsOrdinary markers word → ¬ known word) {setup : List Char}
    (quiet : IsQuiet markers setup) {model : ClassModel} (fits : model.WellFormed markers)
    (takesPart : model.suppressed = false) :
    (occurrences read (Cursor.start (model.printBody markers setup))).filterMap select =
      model.members.filterMap pick := by
  have ended := quiet.ended_line
  have clear : ∀ word ∈ wordsIn ('\n' :: setup), ¬ known word := by
    rw [wordsIn_cons_of_not_isWord _ (by decide)]
    exact fun word member => ordinary word (quiet.ordinary word member)
  have shape : model.printBody markers setup =
      '\n' :: setup ++ (model.members.flatMap (·.print markers) ++ []) := by
    simp [ClassModel.printBody, takesPart]
  have nothing : ∀ passed, occurrences read ⟨passed, []⟩ = [] := by
    intro passed
    apply occurrences_eq_nil
    cases result : read ⟨passed, []⟩ with
    | none => simp [first?, firstFrom?, result]
    | some pair => exact absurd (advances _ _ _ result) (by simp)
  rw [Cursor.start, shape,
    occurrences_append_of_ended advances begins unknown _ ended notInWord_nil clear,
    finds.members fits.members (by simpa using ended) [], nothing]
  simp

end FindsInLines

namespace MemberModel

/-- The declaration of a handler with the plain marker. -/
def markedDeclaration? : MemberModel → Option Declaration
  | marked function parameters => some ⟨[], function.toList, printParameters parameters⟩
  | _ => none

/-- The declaration of a handler with the marker that names its message. -/
def labelledDeclaration? : MemberModel → Option Declaration
  | labelled label function parameters =>
    some ⟨label.toList, function.toList, printParameters parameters⟩
  | _ => none

/-- The declaration of any handler, its marker left out. -/
def declaration? : MemberModel → Option Declaration
  | marked function parameters | labelled _ function parameters | bare function parameters =>
    some ⟨[], function.toList, printParameters parameters⟩
  | property .. => none

theorem ne_token_of_mem_words (legible : markers.Legible) {member : MemberModel}
    (fits : member.WellFormed markers) {token : String} (listed : token ∈ markers.tokens)
    (otherMark : member.mark? markers ≠ some token) :
    ∀ word ∈ wordsIn (member.print markers), ¬ word = token.toList := by
  rintro word found rfl
  rcases mem_words_print legible fits found with ⟨mark, marks, equality⟩ | ⟨_, void⟩ | ordinary
  · rw [String.toList_inj.mp equality] at otherMark
    exact otherMark marks
  · exact legible.ne_void listed void
  · exact ordinary.notMarker token listed rfl

end MemberModel

open Handler.Head MemberModel

theorem unknown_token (legible : markers.Legible) {token : String}
    (listed : token ∈ markers.tokens) : ¬ [] = token.toList :=
  fun equality => (legible.isWordText listed).1 equality.symm

theorem finds_marked (legible : markers.Legible) :
    FindsInLines markers (readMarked? markers.message.toList) complete? markedDeclaration? := by
  have listed : markers.message ∈ markers.tokens := by simp [Markers.tokens]
  have distinct := legible.distinct
  simp only [Markers.tokens, List.nodup_cons, List.mem_cons, not_or] at distinct
  have begins := begins_readMarked? (legible.isWordText listed)
  have skip := @occurrences_print_of_clear markers _ _ _ (advances_readMarked? _) begins
    (unknown_token legible listed)
  intro member fits passed rest outside
  cases member with
  | marked function parameters =>
      exact declarations_of_readsLine (advances_readMarked? _) begins (unknown_token legible listed)
        (fun word ordinary => ordinary.notMarker _ listed) legible fits.2
        (readsLine_readMarked? legible fits.1 parameters) outside rest
  | labelled label function parameters =>
      rw [skip (ne_token_of_mem_words legible fits listed
        (by simp [mark?, Ne.symm distinct.1.1])) outside rest]
      rfl
  | bare function parameters =>
      rw [skip (ne_token_of_mem_words legible fits listed (by simp [mark?])) outside rest]
      rfl
  | property type name =>
      rw [skip (ne_token_of_mem_words legible fits listed
        (by simp [mark?, Ne.symm distinct.1.2.1])) outside rest]
      rfl

theorem finds_labelled (legible : markers.Legible) :
    FindsInLines markers (readNamed? markers.namedMessage.toList) complete?
      labelledDeclaration? := by
  have listed : markers.namedMessage ∈ markers.tokens := by simp [Markers.tokens]
  have distinct := legible.distinct
  simp only [Markers.tokens, List.nodup_cons, List.mem_cons, not_or] at distinct
  have begins := begins_readNamed? (legible.isWordText listed)
  have skip := @occurrences_print_of_clear markers _ _ _ (advances_readNamed? _) begins
    (unknown_token legible listed)
  intro member fits passed rest outside
  cases member with
  | labelled label function parameters =>
      exact declarations_of_readsLine (advances_readNamed? _) begins (unknown_token legible listed)
        (fun word ordinary => ordinary.notMarker _ listed) legible fits.2.2
        (readsLine_readNamed? legible fits.1 fits.2.1 parameters) outside rest
  | marked function parameters =>
      rw [skip (ne_token_of_mem_words legible fits listed
        (by simp [mark?, distinct.1.1])) outside rest]
      rfl
  | bare function parameters =>
      rw [skip (ne_token_of_mem_words legible fits listed (by simp [mark?])) outside rest]
      rfl
  | property type name =>
      rw [skip (ne_token_of_mem_words legible fits listed
        (by simp [mark?, Ne.symm distinct.2.1.1])) outside rest]
      rfl

theorem finds_property (legible : markers.Legible) :
    FindsInLines markers (PropertyDeclaration.read? markers.property.toList) some property? := by
  have listed : markers.property ∈ markers.tokens := by simp [Markers.tokens]
  have distinct := legible.distinct
  simp only [Markers.tokens, List.nodup_cons, List.mem_cons, not_or] at distinct
  have advances := PropertyDeclaration.advances_read? markers.property.toList
  have begins := PropertyDeclaration.begins_read? (legible.isWordText listed)
  have skip := @occurrences_print_of_clear markers _ _ _ advances begins
    (unknown_token legible listed)
  intro member fits passed rest outside
  cases member with
  | property type name =>
      obtain ⟨before, parts, ended, reads⟩ :=
        PropertyDeclaration.read?_print legible fits.1 fits.2 outside rest
      have lineEnd := @occurrences_append_of_ended _ _ _ advances begins
        (unknown_token legible listed) ['\n'] _ rest (notInWord_cons (by decide)) (ended.append outside)
        (by simp [wordsIn_cons_of_not_isWord [] (show isWord '\n' = false by decide)])
      rw [List.singleton_append] at lineEnd
      rw [occurrences_of_read advances reads, lineEnd, parts]
      simp [property?]
  | marked function parameters =>
      rw [skip (ne_token_of_mem_words legible fits listed
        (by simp [mark?, distinct.1.2.1])) outside rest]
      rfl
  | labelled label function parameters =>
      rw [skip (ne_token_of_mem_words legible fits listed
        (by simp [mark?, distinct.2.1.1])) outside rest]
      rfl
  | bare function parameters =>
      rw [skip (ne_token_of_mem_words legible fits listed (by simp [mark?])) outside rest]
      rfl

/-- A search for bare declarations finds a handler whatever marker is in front of it. -/
theorem declarations_of_declared (legible : markers.Legible) {member : MemberModel}
    (fits : member.WellFormed markers) {function : String} {parameters : List ParameterModel}
    (declares : member.declared = printHandler function parameters)
    (functionFits : IsName markers function)
    (parametersFit : ∀ parameter ∈ parameters, parameter.WellFormed markers) {passed : List Char}
    (outside : NotInWord passed) (rest : List Char) :
    (occurrences readBareVoid? ⟨passed, member.print markers ++ rest⟩).filterMap complete? =
      ⟨[], function.toList, printParameters parameters⟩ ::
        (occurrences readBareVoid? ⟨(member.print markers).reverse ++ passed, rest⟩).filterMap
          complete? := by
  have unknown : ¬ ([] : List Char) = "void".toList := by decide
  have ended := member.ended_lead markers
  have clear : ∀ word ∈ wordsIn (member.lead markers), ¬ word = "void".toList := by
    intro word found
    rcases mem_words_lead legible fits found with ⟨token, marks, rfl⟩ | ordinary
    · exact legible.ne_void (mem_tokens_of_mark? marks)
    · exact ordinary.notVoid
  rw [print_eq, declares, List.append_assoc, List.reverse_append, List.append_assoc,
    occurrences_append_of_ended advances_readBareVoid? begins_readBareVoid? unknown _ ended outside
      clear,
    declarations_of_readsLine advances_readBareVoid? begins_readBareVoid? unknown
      (fun word ordinary => ordinary.notVoid) legible parametersFit
      (readsLine_readBareVoid? functionFits parameters) (ended.append outside) rest]

theorem finds_declaration (legible : markers.Legible) :
    FindsInLines markers readBareVoid? complete? declaration? := by
  intro member fits passed rest outside
  cases member with
  | marked function parameters =>
      exact declarations_of_declared legible fits rfl fits.1 fits.2 outside rest
  | labelled label function parameters =>
      exact declarations_of_declared legible fits rfl fits.2.1 fits.2.2 outside rest
  | bare function parameters =>
      exact declarations_of_declared legible fits rfl fits.1 fits.2 outside rest
  | property type name =>
      have clear : ∀ word ∈ wordsIn ((property type name).print markers),
          ¬ word = "void".toList := by
        intro word found
        rcases mem_words_print legible fits found with
          ⟨token, marks, rfl⟩ | ⟨isHandler, _⟩ | ordinary
        · exact legible.ne_void (mem_tokens_of_mark? marks)
        · cases isHandler
        · exact ordinary.notVoid
      rw [occurrences_print_of_clear advances_readBareVoid? begins_readBareVoid? (by decide) clear
        outside rest]
      rfl

end ScriptRegistrar.Printing
