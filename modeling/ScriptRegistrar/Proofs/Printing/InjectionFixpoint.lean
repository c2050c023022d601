import ScriptRegistrar.Proofs.Printing.ConstructorSearch

/-!
# Injecting into printed classes

Injection into a printed header prints the same classes with one constructor updated.  An updated
constructor is as quiet as it was, so the header is still one that a scan reads back, and the
last update of a constructor is the one that counts: once every class is up to date, a second
round changes nothing.
-/

namespace ScriptRegistrar.Printing

open Text Injection

/-- Whether the names of a message are what they may be. -/
structure IsNamed (markers : Markers) (message : Message) : Prop where
  name : IsName markers message.name
  function : IsName markers message.function

/-- Whether a registration statement is what it may be, beside given markers. -/
structure IsStatement (markers : Markers) (statement : String) : Prop where
  identifier : isIdentifier statement.toList = true
  ordinary : IsOrdinary markers statement.toList

variable {markers : Markers}

theorem wordsIn_registration {className statement : String} (isStatement : IsStatement markers statement)
    (classFits : IsName markers className) {message : Message} (named : IsNamed markers message) :
    wordsIn (registration className statement message) =
      [statement.toList, message.name.toList, className.toList, message.function.toList] := by
  have statementWord := isWordText_of_isIdentifier isStatement.identifier
  have nothing : wordsIn [')', ';'] = [] := by decide
  rw [registration_shape, wordsIn_word_append statementWord rfl,
    wordsIn_cons_of_not_isWord _ (by decide), wordsIn_cons_of_not_isWord _ (by decide),
    wordsIn_word_append named.name.isWordText rfl, wordsIn_cons_of_not_isWord _ (by decide),
    wordsIn_cons_of_not_isWord _ (by decide), wordsIn_cons_of_not_isWord _ (by decide),
    wordsIn_cons_of_not_isWord _ (by decide), wordsIn_word_append classFits.isWordText rfl,
    wordsIn_cons_of_not_isWord _ (by decide), wordsIn_cons_of_not_isWord _ (by decide),
    wordsIn_word_append named.function.isWordText rfl, nothing]

theorem not_mem_registration {className statement : String}
    (isStatement : IsStatement markers statement) (classFits : IsName markers className)
    {message : Message} (named : IsNamed markers message) {sign : Char}
    (separates : isIdentifierChar sign = false)
    (noSign : sign ∉ ['(', '"', ',', ' ', '&', ':', ')', ';']) :
    sign ∉ registration className statement message := by
  have absent : ∀ {name : String}, isIdentifier name.toList = true → sign ∉ name.toList :=
    fun identifier => not_mem_of_isIdentifier identifier separates
  intro member
  rcases mem_registration member with inStatement | inName | inClass | inFunction | isSign
  · exact absent isStatement.identifier inStatement
  · exact absent named.name.identifier inName
  · exact absent classFits.identifier inClass
  · exact absent named.function.identifier inFunction
  · exact noSign isSign

theorem areLines_registrations {className statement : String}
    (isStatement : IsStatement markers statement) (classFits : IsName markers className)
    {messages : List Message} (named : ∀ message ∈ messages, IsNamed markers message) :
    AreLines className statement messages := by
  intro message kept
  have fits := named message (mem_of_mem_keepFirst kept)
  exact ⟨not_mem_registration isStatement classFits fits (by decide) (by decide),
    isTrimmed_registration isStatement.identifier message⟩

/-- An updated body is as quiet as it was. -/
theorem isQuietInside_renderBody {ending : List Char} (isEnding : IsEnding ending)
    {className statement : String} (isStatement : IsStatement markers statement)
    (classFits : IsName markers className) {messages : List Message}
    (named : ∀ message ∈ messages, IsNamed markers message) {inside : List Char}
    (quiet : IsQuietInside markers inside) :
    IsQuietInside markers
      (renderBody ending [] (bodyLines className statement messages inside)) := by
  have noSign : ∀ sign, isIdentifierChar sign = false → isBlank sign = false →
      sign ∉ ['(', '"', ',', ' ', '&', ':', ')', ';'] → sign ∉ inside →
        sign ∉ renderBody ending [] (bodyLines className statement messages inside) := by
    intro sign separates unblank noSign absent member
    rcases mem_renderBody isEnding isIndent_nil member with blank | ⟨line, listed, inLine⟩
    · rw [unblank] at blank
      exact Bool.noConfusion blank
    · rcases List.mem_append.mp listed with stayed | registered
      · obtain ⟨_, _, source, inText, rfl⟩ := isLine_of_mem_keptLines stayed
        exact absent (mem_of_mem_lines inText (mem_of_mem_trim inLine))
      · obtain ⟨message, kept, rfl⟩ := List.mem_map.mp registered
        exact not_mem_registration isStatement classFits (named message (mem_of_mem_keepFirst kept))
          separates noSign inLine
  refine ⟨?_, noSign _ (by decide) (by decide) (by decide) quiet.noOpening,
    noSign _ (by decide) (by decide) (by decide) quiet.noClosing⟩
  intro word found
  obtain ⟨line, listed, inLine⟩ := mem_words_renderBody isEnding isIndent_nil found
  rcases List.mem_append.mp listed with stayed | registered
  · obtain ⟨_, _, source, inText, rfl⟩ := isLine_of_mem_keptLines stayed
    rw [wordsIn_trim] at inLine
    exact quiet.ordinary word (mem_wordsIn_of_mem_lines inText inLine)
  · obtain ⟨message, kept, rfl⟩ := List.mem_map.mp registered
    have fits := named message (mem_of_mem_keepFirst kept)
    rw [wordsIn_registration isStatement classFits fits] at inLine
    simp only [List.mem_cons, List.not_mem_nil, or_false] at inLine
    rcases inLine with rfl | rfl | rfl | rfl
    · exact isStatement.ordinary
    · exact fits.name.isOrdinary
    · exact classFits.isOrdinary
    · exact fits.function.isOrdinary

theorem ClassModel.isNamed_of_mem_messages {model : ClassModel} (fits : model.WellFormed markers)
    (typesOf : List ParameterModel → List String) (table : SignatureTable) :
    ∀ message ∈ model.messages typesOf table, IsNamed markers message := by
  intro message found
  have listed := mem_of_mem_keepFirst found
  simp only [List.mem_append, List.mem_filterMap] at listed
  rcases listed with (⟨member, inModel, picked⟩ | ⟨member, inModel, picked⟩) |
    ⟨member, inModel, picked⟩
  · have memberFits := fits.members member inModel
    cases member with
    | marked function parameters =>
        cases picked
        exact ⟨memberFits.1, memberFits.1⟩
    | labelled | bare | property => cases picked
  · have memberFits := fits.members member inModel
    cases member with
    | labelled label function parameters =>
        cases picked
        exact ⟨memberFits.1, memberFits.2.1⟩
    | marked | bare | property => cases picked
  · have memberFits := fits.members member inModel
    cases member with
    | bare function parameters =>
        simp only [MemberModel.bare?, Option.filter_some] at picked
        split at picked
        · cases picked
          exact ⟨memberFits.1, memberFits.1⟩
        · cases picked
    | marked | labelled | property => cases picked

namespace ConstructedClass

/-- A class whose constructor, if it has one, registers some messages. -/
def update (statement : String) (ending : List Char) (messages : List Message)
    (script : ConstructedClass) : ConstructedClass :=
  { script with
    inside? := script.inside?.map fun inside =>
      renderBody ending [] (bodyLines script.model.name statement messages inside) }

/-- What the update of one class does to any class of its header. -/
def touch (statement : String) (ending : List Char) (name : String) (messages : List Message)
    (script : ConstructedClass) : ConstructedClass :=
  if script.model.name = name then script.update statement ending messages else script

@[simp] theorem model_touch (statement : String) (ending : List Char) (name : String)
    (messages : List Message) (script : ConstructedClass) :
    (script.touch statement ending name messages).model = script.model := by
  unfold touch update
  split <;> rfl

variable {config : Config} {statement : String}

theorem wellFormed_touch (isStatement : IsStatement markers statement) {ending : List Char}
    (isEnding : IsEnding ending) {name : String} {messages : List Message}
    (named : ∀ message ∈ messages, IsNamed markers message) {script : ConstructedClass}
    (fits : script.WellFormed markers) :
    (script.touch statement ending name messages).WellFormed markers := by
  refine ⟨by simpa using fits.model, ?_⟩
  intro inside found
  unfold touch at found
  split at found
  · simp only [update, Option.map_eq_some_iff] at found
    obtain ⟨text, constructs, rfl⟩ := found
    exact isQuietInside_renderBody isEnding isStatement fits.model.name named
      (fits.inside text constructs)
  · exact fits.inside inside found

theorem map_touch_of_ne (ending : List Char) {name : String} (messages : List Message)
    {scripts : List ConstructedClass} (different : ∀ script ∈ scripts, script.model.name ≠ name) :
    scripts.map (touch statement ending name messages) = scripts := by
  have same : ∀ script ∈ scripts, touch statement ending name messages script = id script :=
    fun script listed => if_neg (different script listed)
  rw [List.map_congr_left same, List.map_id]

theorem touch_of_not_constructs (ending : List Char) {name : String} (messages : List Message)
    {script : ConstructedClass} (other : ¬ script.Constructs name) :
    script.touch statement ending name messages = script := by
  unfold touch
  split
  · rename_i named
    cases inside : script.inside? with
    | none => rw [update, inside, Option.map_none, ← inside]
    | some text => exact (other ⟨by rw [inside]; rfl, named⟩).elim
  · rfl

/-- Injection updates the constructor of its class and leaves the other classes as they are. -/
theorem inject_printAll (legible : config.markers.Legible)
    (base : isIdentifier config.baseClass.toList = true) {scripts : List ConstructedClass}
    (fit : ∀ script ∈ scripts, script.WellFormed config.markers)
    (distinct : (scripts.map (·.model.name)).Nodup) {name : String}
    (nameFits : IsName config.markers name) (messages : List Message) :
    inject name statement messages (String.ofList (printAll config scripts)) =
      String.ofList (printAll config (scripts.map
        (touch statement (lineEnding (printAll config scripts)) name messages))) := by
  have isWordText := nameFits.isWordText
  by_cases constructs : ∃ script ∈ scripts, script.Constructs name
  · obtain ⟨script, listed, hasInside, named⟩ := constructs
    obtain ⟨inside, found⟩ := Option.isSome_iff_exists.mp hasInside
    obtain ⟨left, right, rfl⟩ := List.append_of_mem listed
    rw [List.map_append, List.map_cons, List.nodup_append, List.nodup_cons] at distinct
    obtain ⟨_, ⟨notRight, _⟩, notLeft⟩ := distinct
    have leftOthers : ∀ other ∈ left, other.model.name ≠ name := by
      intro other inLeft
      rw [← named]
      exact notLeft _ (List.mem_map_of_mem inLeft) _ List.mem_cons_self
    have rightOthers : ∀ other ∈ right, other.model.name ≠ name := by
      intro other inRight equality
      rw [named, ← equality] at notRight
      exact notRight (List.mem_map_of_mem inRight)
    obtain ⟨constructor, search, body, indent, replaced⟩ := @find?_printAll config name.toList
      isWordText legible base left right
      (fun other inLeft => fit other (List.mem_append_left _ inLeft))
      (fun other inLeft also => leftOthers other inLeft (by simpa using also.2)) script
      (fit script listed) (by rw [named]) inside found
    simp only [inject, inject?, update?, String.toList_ofList, search, Option.map_some,
      Option.getD_some, body, indent, replaced]
    rw [List.map_append, List.map_cons, map_touch_of_ne _ messages leftOthers,
      map_touch_of_ne _ messages rightOthers, touch, if_pos named, update, found, named]
    rfl
  · have none : ∀ script ∈ scripts, ¬ script.Constructs name :=
      fun script listed also => constructs ⟨script, listed, also⟩
    have search := find?_printAll_eq_none isWordText legible base fit (by simpa using none)
    have untouched : scripts.map
        (touch statement (lineEnding (printAll config scripts)) name messages) = scripts :=
      (List.map_congr_left fun script listed =>
        touch_of_not_constructs _ messages (none script listed)).trans (List.map_id scripts)
    rw [untouched]
    simp [inject, inject?, update?, search]

/-- What the updates of several classes do to any class of their header. -/
def touchEach (statement : String) (ending : List Char) (records : List ScriptClass)
    (script : ConstructedClass) : ConstructedClass :=
  records.foldl (fun script record => script.touch statement ending record.name record.messages)
    script

@[simp] theorem model_touchEach (statement : String) (ending : List Char)
    (records : List ScriptClass) (script : ConstructedClass) :
    (script.touchEach statement ending records).model = script.model := by
  induction records generalizing script with
  | nil => rfl
  | cons record rest induction => exact (induction _).trans (model_touch _ _ _ _ script)

/-- Whether the names of a record are what they may be. -/
structure IsNamedRecord (markers : Markers) (record : ScriptClass) : Prop where
  name : IsName markers record.name
  messages : ∀ message ∈ record.messages, IsNamed markers message

theorem isNamedRecord_recordOf {model : ClassModel} (fits : model.WellFormed markers)
    (typesOf : List ParameterModel → List String) (table : SignatureTable) (header : Path) :
    IsNamedRecord markers (model.recordOf typesOf table header) := by
  unfold ClassModel.recordOf
  split
  · exact ⟨fits.name, by simp⟩
  · exact ⟨fits.name, model.isNamed_of_mem_messages fits typesOf table⟩

theorem IsNamedRecord.areLines (isStatement : IsStatement markers statement)
    {record : ScriptClass} (named : IsNamedRecord markers record) :
    AreLines record.name statement record.messages :=
  areLines_registrations isStatement named.name named.messages

theorem wellFormed_touchEach (isStatement : IsStatement markers statement) {ending : List Char}
    (isEnding : IsEnding ending) {records : List ScriptClass}
    (named : ∀ record ∈ records, IsNamedRecord markers record) {script : ConstructedClass}
    (fits : script.WellFormed markers) :
    (script.touchEach statement ending records).WellFormed markers := by
  induction records generalizing script with
  | nil => exact fits
  | cons record rest induction =>
      obtain ⟨recordNamed, restNamed⟩ := List.forall_mem_cons.mp named
      exact induction restNamed
        (wellFormed_touch isStatement isEnding recordNamed.messages fits)

theorem inject_records (legible : config.markers.Legible)
    (base : isIdentifier config.baseClass.toList = true)
    (isStatement : IsStatement config.markers statement) {records : List ScriptClass}
    (named : ∀ record ∈ records, IsNamedRecord config.markers record)
    {scripts : List ConstructedClass}
    (fit : ∀ script ∈ scripts, script.WellFormed config.markers)
    (distinct : (scripts.map (·.model.name)).Nodup) :
    let ending := lineEnding (printAll config scripts)
    let updated := scripts.map (touchEach statement ending records)
    records.foldl (fun text record => inject record.name statement record.messages text)
        (String.ofList (printAll config scripts)) = String.ofList (printAll config updated) ∧
      lineEnding (printAll config updated) = ending := by
  intro ending
  induction records generalizing scripts with
  | nil =>
      have same : scripts.map (touchEach statement ending []) = scripts :=
        (List.map_congr_left fun _ _ => rfl).trans (List.map_id scripts)
      simp [same, ending]
  | cons record rest induction =>
      obtain ⟨recordNamed, restNamed⟩ := List.forall_mem_cons.mp named
      have step : inject record.name statement record.messages
          (String.ofList (printAll config scripts)) = _ :=
        inject_printAll legible base fit distinct recordNamed.name record.messages
      have kept := lineEnding_inject (recordNamed.areLines isStatement).fitLines
        (String.ofList (printAll config scripts))
      rw [step, String.toList_ofList, String.toList_ofList] at kept
      have further := @induction restNamed (scripts.map (touch statement ending record.name
        record.messages)) ?_ ?_
      · rw [List.foldl_cons, step]
        simp only [ending, kept, List.map_map] at further ⊢
        exact further
      · intro script listed
        obtain ⟨source, inScripts, rfl⟩ := List.mem_map.mp listed
        exact wellFormed_touch isStatement (isEnding_lineEnding _) recordNamed.messages
          (fit source inScripts)
      · simpa [List.map_map, Function.comp_def] using distinct

theorem update_update {ending : List Char} (isEnding : IsEnding ending)
    {messages : List Message} (script : ConstructedClass)
    (areLines : AreLines script.model.name statement messages) (later : List Message) :
    (script.update statement ending messages).update statement ending later =
      script.update statement ending later := by
  cases inside : script.inside? with
  | none => simp [update, inside]
  | some text =>
      simp [update, inside, bodyLines_renderBody isEnding isIndent_nil areLines later]

/-- Several updates of a class come down to the last one, if there is any. -/
theorem touchEach_eq (isStatement : IsStatement markers statement) {ending : List Char}
    (isEnding : IsEnding ending) {records : List ScriptClass}
    (named : ∀ record ∈ records, IsNamedRecord markers record) (name : String) :
    (∀ script : ConstructedClass, script.model.name = name →
        script.touchEach statement ending records = script) ∨
      ∃ messages, AreLines name statement messages ∧
        ∀ script : ConstructedClass, script.model.name = name →
          script.touchEach statement ending records =
            script.update statement ending messages := by
  induction records with
  | nil => exact Or.inl fun _ _ => rfl
  | cons record rest induction =>
      obtain ⟨recordNamed, restNamed⟩ := List.forall_mem_cons.mp named
      have areLines := recordNamed.areLines isStatement
      have step : ∀ script : ConstructedClass,
          script.touchEach statement ending (record :: rest) =
            (script.touch statement ending record.name record.messages).touchEach statement
              ending rest := fun _ => rfl
      by_cases same : name = record.name
      · subst same
        have touched : ∀ script : ConstructedClass, script.model.name = record.name →
            script.touch statement ending record.name record.messages =
              script.update statement ending record.messages := fun _ named => if_pos named
        rcases induction restNamed with none | ⟨messages, lines, last⟩
        · refine Or.inr ⟨record.messages, areLines, fun script named => ?_⟩
          rw [step, none _ (by simpa using named), touched script named]
        · refine Or.inr ⟨messages, lines, fun script named => ?_⟩
          rw [step, last _ (by simpa using named), touched script named,
            update_update isEnding script (named ▸ areLines)]
      · have untouched : ∀ script : ConstructedClass, script.model.name = name →
            script.touch statement ending record.name record.messages = script :=
          fun script named => if_neg (named ▸ same)
        refine (induction restNamed).imp (fun none script named => ?_)
          fun ⟨messages, lines, last⟩ => ⟨messages, lines, fun script named => ?_⟩
        · rw [step, untouched script named, none script named]
        · rw [step, untouched script named, last script named]

theorem touchEach_touchEach (isStatement : IsStatement markers statement) {ending : List Char}
    (isEnding : IsEnding ending) {records : List ScriptClass}
    (named : ∀ record ∈ records, IsNamedRecord markers record) (script : ConstructedClass) :
    (script.touchEach statement ending records).touchEach statement ending records =
      script.touchEach statement ending records := by
  rcases touchEach_eq isStatement isEnding named script.model.name with
    none | ⟨messages, areLines, last⟩
  · rw [none script rfl, none script rfl]
  · rw [last script rfl, last (script.update statement ending messages) rfl,
      update_update isEnding script areLines]

/-- What injection makes of printed classes is scanned alike, and injecting for its records again
changes nothing. -/
theorem injectEach_printAll (legible : config.markers.Legible)
    (base : isIdentifier config.baseClass.toList = true)
    (isStatement : IsStatement config.markers config.registration.statement)
    {classes : List ConstructedClass}
    (fit : ∀ script ∈ classes, script.WellFormed config.markers)
    (names : (classes.map (·.model.name)).Nodup) (table : SignatureTable) (header : Path) :
    let scanner := Scanner.withTable config table
    let text := String.ofList (printAll config classes)
    let scan := scanner.scanHeader text header
    let injected := injectEach config.registration.statement scan.records text
    scanner.scanHeader injected header = scan ∧
      injectEach config.registration.statement scan.records injected = injected := by
  intro scanner text scan injected
  have scanEq : scan =
      { records := classes.map (·.model.recordOf readTypes table header), failure := none } :=
    scan_printAll legible base table header fit
  have named : ∀ record ∈ scan.records.filter ScriptClass.wantsInjection,
      IsNamedRecord config.markers record := by
    intro record kept
    have listed := (List.mem_filter.mp kept).1
    rw [scanEq] at listed
    obtain ⟨source, inClasses, rfl⟩ := List.mem_map.mp listed
    exact isNamedRecord_recordOf (fit source inClasses).model readTypes table header
  generalize recordsEq : scan.records.filter ScriptClass.wantsInjection = records at named
  let ending := lineEnding (printAll config classes)
  have isEnding : IsEnding ending := isEnding_lineEnding _
  let touched := touchEach config.registration.statement ending records
  have updatedFit : ∀ script ∈ classes.map touched, script.WellFormed config.markers := by
    intro script listed
    obtain ⟨source, inClasses, rfl⟩ := List.mem_map.mp listed
    exact wellFormed_touchEach isStatement isEnding named (fit source inClasses)
  have updatedNames : ((classes.map touched).map (·.model.name)).Nodup := by
    simpa [touched, List.map_map, Function.comp_def] using names
  obtain ⟨firstRound, kept⟩ := inject_records legible base isStatement named fit names
  obtain ⟨secondRound, _⟩ :=
    inject_records legible base isStatement named updatedFit updatedNames
  have injectedEq : injected = String.ofList (printAll config (classes.map touched)) := by
    simp only [injected, injectEach, recordsEq]
    exact firstRound
  constructor
  · rw [injectedEq, scanEq, scan_printAll legible base table header updatedFit]
    simp [touched, List.map_map, Function.comp_def]
  · have same : (classes.map touched).map touched = classes.map touched := by
      rw [List.map_map]
      exact List.map_congr_left fun script _ =>
        touchEach_touchEach isStatement isEnding named script
    rw [injectedEq, injectEach, recordsEq, secondRound, kept, same]

end ConstructedClass

/-- A script class that may start with a constructor of some lines. -/
structure ScriptModel where
  model : ClassModel
  /-- The lines between the braces of the constructor, if there is one. -/
  lines? : Option (List (List Char))

/-- Whether a line may stand in a constructor: it has no brace, no marker and no `void`. -/
structure IsConstructorLine (markers : Markers) (line : List Char) : Prop where
  ordinary : ∀ word ∈ wordsIn line, IsOrdinary markers word
  noOpening : '\x7b' ∉ line
  noClosing : '\x7d' ∉ line

namespace ScriptModel

/-- A class with its constructor as a text. -/
def constructed (script : ScriptModel) : ConstructedClass :=
  ⟨script.model, script.lines?.map constructorText⟩

/-- The declaration of a class, with its constructor in front of its members. -/
def print (config : Config) (script : ScriptModel) : List Char :=
  script.constructed.print config

/-- Whether the names, the types and the constructor lines of a class are what they may be. -/
structure WellFormed (markers : Markers) (script : ScriptModel) : Prop where
  model : script.model.WellFormed markers
  lines : ∀ lines, script.lines? = some lines → ∀ line ∈ lines, IsConstructorLine markers line

theorem isQuietInside_constructorText {markers : Markers} {lines : List (List Char)}
    (fit : ∀ line ∈ lines, IsConstructorLine markers line) :
    IsQuietInside markers (constructorText lines) := by
  have noBrace : ∀ brace, brace ≠ '\n' → (∀ line ∈ lines, brace ∉ line) →
      brace ∉ constructorText lines := by
    intro brace noFeed absent member
    rcases List.mem_cons.mp member with feed | behind
    · exact noFeed feed
    · obtain ⟨line, listed, found⟩ := List.mem_flatMap.mp behind
      rcases List.mem_append.mp found with inLine | feed
      · exact absent line listed inLine
      · exact noFeed (List.mem_singleton.mp feed)
  refine ⟨?_, noBrace _ (by decide) fun line listed => (fit line listed).noOpening,
    noBrace _ (by decide) fun line listed => (fit line listed).noClosing⟩
  rw [constructorText, wordsIn_cons_of_not_isWord _ (by decide)]
  clear noBrace
  induction lines with
  | nil => simp
  | cons line others induction =>
      obtain ⟨lineFits, othersFit⟩ := List.forall_mem_cons.mp fit
      rw [List.flatMap_cons, List.append_assoc, List.singleton_append,
        wordsIn_append_cons _ _ (by decide)]
      intro word member
      rcases List.mem_append.mp member with here | behind
      · exact lineFits.ordinary word here
      · exact induction othersFit word behind

theorem wellFormed_constructed {markers : Markers} {script : ScriptModel}
    (fits : script.WellFormed markers) : script.constructed.WellFormed markers := by
  refine ⟨fits.model, ?_⟩
  intro inside found
  simp only [constructed, Option.map_eq_some_iff] at found
  obtain ⟨lines, constructs, rfl⟩ := found
  exact isQuietInside_constructorText (fits.lines lines constructs)

end ScriptModel

theorem isStatement_of_validate {config : Config} (valid : config.validate = .ok ())
    (distinct : config.registration.statement ∉ config.markers.tokens)
    (noKeyword : config.registration.statement ∉ keywords) :
    IsStatement config.markers config.registration.statement := by
  refine ⟨Config.isIdentifier_of_validate valid
    ("registration.statement", config.registration.statement) (by simp [Config.identifiers]), ?_, ?_⟩
  · intro token listed equality
    exact distinct (String.toList_inj.mp equality ▸ listed)
  · intro void
    rw [String.toList_inj.mp void] at noKeyword
    exact noKeyword (by decide)

/-- Once the registrations of a printed header are injected, the header is up to date: a scan
finds the same in it, and another injection for the same records changes nothing. -/
theorem injectEach_settles {config : Config} (valid : config.validate = .ok ())
    (distinct : (config.registration.statement :: config.markers.tokens).Nodup)
    (noKeyword : ∀ token ∈ config.registration.statement :: config.markers.tokens,
      token ∉ keywords)
    {scripts : List ScriptModel} (fit : ∀ script ∈ scripts, script.WellFormed config.markers)
    (names : (scripts.map (·.model.name)).Nodup) (table : SignatureTable) (header : Path) :
    let scanner := Scanner.withTable config table
    let text := String.ofList (scripts.flatMap (·.print config))
    let scan := scanner.scanHeader text header
    let injected := injectEach config.registration.statement scan.records text
    scanner.scanHeader injected header = scan ∧
      injectEach config.registration.statement scan.records injected = injected := by
  obtain ⟨noMarker, tokens⟩ := List.nodup_cons.mp distinct
  obtain ⟨statementFits, tokensFit⟩ := List.forall_mem_cons.mp noKeyword
  have legible := Config.legible_of_validate valid tokens tokensFit
  have isStatement := isStatement_of_validate valid noMarker statementFits
  have base := Config.isIdentifier_of_validate valid ("base_class", config.baseClass)
    (by simp [Config.identifiers])
  have classesFit : ∀ script ∈ scripts.map ScriptModel.constructed,
      script.WellFormed config.markers := by
    intro script listed
    obtain ⟨source, inScripts, rfl⟩ := List.mem_map.mp listed
    exact ScriptModel.wellFormed_constructed (fit source inScripts)
  have classNames : ((scripts.map ScriptModel.constructed).map (·.model.name)).Nodup := by
    rw [List.map_map]
    exact names
  have textEq : scripts.flatMap (·.print config) =
      ConstructedClass.printAll config (scripts.map ScriptModel.constructed) := by
    simp only [ConstructedClass.printAll, List.flatMap_map]
    rfl
  rw [textEq]
  exact ConstructedClass.injectEach_printAll legible base isStatement classesFit classNames table
    header

theorem injectEach_settles_player :
    let player : ScriptModel :=
      ⟨⟨"Player", false, [.marked "Jump" [], .property (.named false "int" [] false [] []) "lives"]⟩,
        some ["  lives = 3;".toList, "RegisterMessage(\"Old\", &Player::Old);".toList]⟩
    let scanner := Scanner.withTable {} .engineDefault
    let text := String.ofList ([player].flatMap (·.print {}))
    let scan := scanner.scanHeader text ⟨"Player.h"⟩
    let injected := injectEach "RegisterMessage" scan.records text
    scanner.scanHeader injected ⟨"Player.h"⟩ = scan ∧
      injectEach "RegisterMessage" scan.records injected = injected := by
  have named : ∀ name ∈ ["Player", "Jump", "lives"], IsName {} name := by
    have listed : ∀ name ∈ ["Player", "Jump", "lives"],
        isIdentifier name.toList = true ∧ name ∉ keywords ∧ name ∉ ["final", "override"] ∧
          name ∉ Markers.tokens {} := by decide
    exact fun name member => ⟨(listed name member).1, (listed name member).2.1,
      (listed name member).2.2.1, (listed name member).2.2.2⟩
  have typed : IsTypeName {} "int" := ⟨by decide, by decide, by decide, by decide⟩
  intro player scanner text scan injected
  refine @injectEach_settles {} rfl (by decide) (by decide) [player] ?_ (by decide)
    .engineDefault ⟨"Player.h"⟩
  rw [List.forall_mem_singleton]
  refine ⟨⟨named _ (by simp [player]), ?_⟩, ?_⟩
  · simp [player, MemberModel.WellFormed, TypeModel.WellFormed, TypeModel.AllWellFormed, named,
      typed]
  · intro lines shape
    simp only [player, Option.some.injEq] at shape
    subst shape
    have clear : ∀ line ∈ ["  lives = 3;".toList, "RegisterMessage(\"Old\", &Player::Old);".toList],
        (∀ word ∈ wordsIn line, (∀ token ∈ Markers.tokens {}, word ≠ token.toList) ∧
          word ≠ "void".toList) ∧ '\x7b' ∉ line ∧ '\x7d' ∉ line := by decide
    intro line listed
    obtain ⟨words, noOpening, noClosing⟩ := clear line listed
    exact ⟨fun word found => ⟨(words word found).1, (words word found).2⟩, noOpening, noClosing⟩

end ScriptRegistrar.Printing
