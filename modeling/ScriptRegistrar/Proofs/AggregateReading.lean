import ScriptRegistrar.Aggregate
import ScriptRegistrar.Config.Validation
import ScriptRegistrar.Proofs.Crediting
import ScriptRegistrar.Proofs.Text.CharacterClasses
import ScriptRegistrar.Proofs.Text.CursorSteps

/-!
# Reading the aggregate

The aggregate can be read back: what it says about the classes is told by its text.  A name ends
where a character follows that no word has, quoted text ends at the next quotation mark, and the
entries of a list go on as long as they start with the sign that every one of them starts with.
-/

namespace ScriptRegistrar

open Text

namespace Text

theorem append_inj_of_stops {test : Char → Bool} {run other behind rest : List Char}
    (holds : ∀ character ∈ run, test character = true)
    (otherHolds : ∀ character ∈ other, test character = true)
    (stops : behind.head?.any test = false) (otherStops : rest.head?.any test = false)
    (same : run ++ behind = other ++ rest) : run = other ∧ behind = rest := by
  have runs : run = other := by
    rw [← Cursor.takeWhile_append_of_stops holds stops, same,
      Cursor.takeWhile_append_of_stops otherHolds otherStops]
  subst runs
  exact ⟨rfl, List.append_cancel_left same⟩

theorem append_inj_of_word {word other behind rest : List Char} {sign otherSign : Char}
    (isWordText : IsWordText word) (otherIsWordText : IsWordText other)
    (next : behind.head? = some sign) (otherNext : rest.head? = some otherSign)
    (separates : isWord sign = false) (otherSeparates : isWord otherSign = false)
    (same : word ++ behind = other ++ rest) : word = other ∧ behind = rest :=
  append_inj_of_stops isWordText.2 otherIsWordText.2 (by rw [next]; exact separates)
    (by rw [otherNext]; exact otherSeparates) same

/-- Quoted texts are told apart by the quotation marks behind them. -/
theorem append_inj_of_quote {quoted other behind rest : List Char} (noQuote : '"' ∉ quoted)
    (otherNoQuote : '"' ∉ other) (next : behind.head? = some '"') (otherNext : rest.head? = some '"')
    (same : quoted ++ behind = other ++ rest) : quoted = other ∧ behind = rest := by
  have isInside : ∀ {text : List Char}, '"' ∉ text →
      ∀ character ∈ text, decide (character ≠ '"') = true := by
    intro text absent character member
    rw [decide_eq_true_eq]
    rintro rfl
    exact absent member
  exact append_inj_of_stops (isInside noQuote) (isInside otherNoQuote) (by rw [next]; rfl)
    (by rw [otherNext]; rfl) same

/-- Lists whose entries are told apart, and start with a sign that does not follow the list, are told
apart. -/
theorem flatMap_append_inj {write : α → List Char} {writeOther : β → List Char} {view : α → γ}
    {viewOther : β → γ} {start stop : Char} {values : List α} {others : List β}
    {behind rest : List Char} (ends : start ≠ stop)
    (starts : ∀ value ∈ values, (write value).head? = some start)
    (otherStarts : ∀ other ∈ others, (writeOther other).head? = some start)
    (told : ∀ value ∈ values, ∀ other ∈ others, ∀ behind rest,
      write value ++ behind = writeOther other ++ rest → view value = viewOther other ∧ behind = rest)
    (next : behind.head? = some stop) (otherNext : rest.head? = some stop)
    (same : values.flatMap write ++ behind = others.flatMap writeOther ++ rest) :
    values.map view = others.map viewOther ∧ behind = rest := by
  induction values generalizing others with
  | nil =>
      cases others with
      | nil => exact ⟨rfl, same⟩
      | cons other more =>
          have first := congrArg List.head? same
          rw [List.flatMap_nil, List.nil_append, next, List.flatMap_cons, List.append_assoc,
            List.head?_append, otherStarts other List.mem_cons_self] at first
          exact (ends (Option.some.inj first).symm).elim
  | cons value later induction =>
      cases others with
      | nil =>
          have first := congrArg List.head? same
          rw [List.flatMap_nil, List.nil_append, otherNext, List.flatMap_cons, List.append_assoc,
            List.head?_append, starts value List.mem_cons_self] at first
          exact (ends (Option.some.inj first)).elim
      | cons other more =>
          rw [List.flatMap_cons, List.flatMap_cons, List.append_assoc, List.append_assoc] at same
          obtain ⟨first, further⟩ :=
            told value List.mem_cons_self other List.mem_cons_self _ _ same
          obtain ⟨views, behindSame⟩ := induction
            (fun value member => starts value (List.mem_cons_of_mem _ member))
            (fun other member => otherStarts other (List.mem_cons_of_mem _ member))
            (fun value member other otherMember => told value (List.mem_cons_of_mem _ member) other
              (List.mem_cons_of_mem _ otherMember)) further
          exact ⟨by rw [List.map_cons, List.map_cons, first, views], behindSame⟩

end Text

namespace Aggregate

/-- What the aggregate says about a class. -/
structure Registration where
  className : String
  /-- The properties that are registered; `none` if the class is registered by hand. -/
  properties? : Option (List Property)
  deriving DecidableEq, Repr

def registration (byHand : ScriptClass → Bool) (script : ScriptClass) : Registration where
  className := script.name
  properties? := if byHand script then none else some script.properties

/-- The classes that did not opt out. -/
def included (scripts : List ScriptClass) : List ScriptClass :=
  scripts.filter (!·.excluded)

/-- Whether what the aggregate quotes of a class ends where the quotation ends. -/
structure IsQuotable (script : ScriptClass) : Prop where
  name : IsWordText script.name.toList
  propertyNames : ∀ property ∈ script.properties, IsWordText property.name.toList
  propertyTypes : ∀ property ∈ script.properties, '"' ∉ property.type.toList
  includePath : '"' ∉ script.includePath.toList

@[simp] theorem toList_join_map {α : Type} (write : α → String) (values : List α) :
    (String.join (values.map write)).toList = values.flatMap fun value => (write value).toList := by
  rw [String.toList_join, List.flatMap_map]

@[simp] theorem head?_propertyCall (className : String) (property : Property) :
    (propertyCall className property).toList.head? = some '\n' := by
  unfold propertyCall
  simp only [String.toList_append, List.append_assoc]
  rfl

theorem propertyCall_inj {className : String} {property other : Property} {behind rest : List Char}
    (isName : IsWordText property.name.toList) (otherIsName : IsWordText other.name.toList)
    (quotable : '"' ∉ property.type.toList) (otherQuotable : '"' ∉ other.type.toList)
    (same : (propertyCall className property).toList ++ behind =
      (propertyCall className other).toList ++ rest) : property = other ∧ behind = rest := by
  unfold propertyCall at same
  simp only [String.toList_append, List.append_assoc] at same
  obtain ⟨names, same⟩ := append_inj_of_word isName otherIsName (by rfl) (by rfl)
    (by decide) (by decide) (List.append_cancel_left same)
  rw [names] at same
  simp only [List.append_cancel_left_eq] at same
  obtain ⟨types, same⟩ := append_inj_of_quote quotable otherQuotable (by rfl) (by rfl) same
  have sameProperty : property = other := by
    cases property
    cases other
    rw [Property.mk.injEq]
    exact ⟨String.toList_inj.mp names, String.toList_inj.mp types⟩
  exact ⟨sameProperty, List.append_cancel_left same⟩

section

variable {names : RegistrationNames} {byHand otherByHand : ScriptClass → Bool}
  {script other : ScriptClass} {behind rest : List Char}

theorem handle_inj (isName : IsWordText script.name.toList) (otherIsName : IsWordText other.name.toList)
    (same : (handle names script).toList ++ behind = (handle names other).toList ++ rest) :
    script.name = other.name ∧ behind = rest := by
  unfold handle at same
  simp only [String.toList_append, List.append_assoc, List.append_cancel_left_eq] at same
  obtain ⟨classNames, same⟩ := append_inj_of_word isName otherIsName (by rfl) (by rfl)
    (by decide) (by decide) same
  rw [classNames] at same
  simp only [List.append_cancel_left_eq] at same
  exact ⟨String.toList_inj.mp classNames, same⟩

theorem propertyChain_inj (quotable : IsQuotable script) (otherQuotable : IsQuotable other)
    (same : (propertyChain script).toList ++ behind = (propertyChain other).toList ++ rest) :
    script.name = other.name ∧ script.properties = other.properties ∧ behind = rest := by
  unfold propertyChain at same
  simp only [String.toList_append, List.append_assoc, List.append_cancel_left_eq,
    toList_join_map] at same
  obtain ⟨classNames, same⟩ := append_inj_of_word quotable.name otherQuotable.name (by rfl)
    (by rfl) (by decide) (by decide) same
  have sameName := String.toList_inj.mp classNames
  rw [sameName] at same
  simp only [List.append_cancel_left_eq] at same
  obtain ⟨properties, same⟩ := @flatMap_append_inj _ _ _ _ _ id id '\n' ';' _ _ _ _ (by decide)
    (fun _ _ => head?_propertyCall _ _) (fun _ _ => head?_propertyCall _ _)
    (fun property member otherProperty otherMember _ _ =>
      propertyCall_inj (quotable.propertyNames property member)
        (otherQuotable.propertyNames otherProperty otherMember)
        (quotable.propertyTypes property member)
        (otherQuotable.propertyTypes otherProperty otherMember)) (by rfl) (by rfl) same
  exact ⟨sameName, by simpa using properties, List.append_cancel_left same⟩

@[simp] theorem head?_propertyChain (script : ScriptClass) :
    (propertyChain script).toList.head? = some '\n' := by
  unfold propertyChain
  simp only [String.toList_append, List.append_assoc]
  rfl

@[simp] theorem head?_handle (names : RegistrationNames) (script : ScriptClass) :
    (handle names script).toList.head? = some '\n' := by
  unfold handle
  simp only [String.toList_append, List.append_assoc]
  rfl

theorem classBlock_of_byHand (isByHand : byHand script = true) :
    (classBlock names byHand script).toList = (handle names script).toList := by
  rw [classBlock, if_pos isByHand, String.empty_append]

theorem classBlock_of_not_byHand (notByHand : byHand script = false) :
    (classBlock names byHand script).toList =
      (propertyChain script).toList ++ (handle names script).toList := by
  rw [classBlock, if_neg (by simp [notByHand]), String.toList_append]

@[simp] theorem head?_classBlock (names : RegistrationNames) (byHand : ScriptClass → Bool)
    (script : ScriptClass) : (classBlock names byHand script).toList.head? = some '\n' := by
  cases onHand : byHand script with
  | true => rw [classBlock_of_byHand onHand, head?_handle]
  | false =>
      simp [classBlock_of_not_byHand onHand, List.head?_append]

theorem propertyChain_ne_handle (isHandle : IsWordText names.handleType.toList)
    (isName : IsWordText script.name.toList) :
    (propertyChain script).toList ++ behind ≠ (handle names other).toList ++ rest := by
  intro same
  unfold propertyChain handle at same
  simp only [String.toList_append, List.append_assoc, List.append_cancel_left_eq] at same
  obtain ⟨_, differs⟩ := append_inj_of_word isName isHandle (by rfl) (by rfl) (by decide)
    (by decide) same
  have signs : some '>' = some '<' := congrArg List.head? differs
  exact absurd signs (by decide)

theorem classBlock_inj (isHandle : IsWordText names.handleType.toList)
    (quotable : IsQuotable script) (otherQuotable : IsQuotable other)
    (same : (classBlock names byHand script).toList ++ behind =
      (classBlock names otherByHand other).toList ++ rest) :
    registration byHand script = registration otherByHand other ∧ behind = rest := by
  rw [registration, registration]
  cases onHand : byHand script with
  | true =>
      rw [classBlock_of_byHand onHand] at same
      cases otherOnHand : otherByHand other with
      | true =>
          rw [classBlock_of_byHand otherOnHand] at same
          obtain ⟨classNames, same⟩ := handle_inj quotable.name otherQuotable.name same
          exact ⟨by rw [classNames]; rfl, same⟩
      | false =>
          rw [classBlock_of_not_byHand otherOnHand, List.append_assoc] at same
          exact (propertyChain_ne_handle isHandle otherQuotable.name same.symm).elim
  | false =>
      rw [classBlock_of_not_byHand onHand, List.append_assoc] at same
      cases otherOnHand : otherByHand other with
      | true =>
          rw [classBlock_of_byHand otherOnHand] at same
          exact (propertyChain_ne_handle isHandle quotable.name same).elim
      | false =>
          rw [classBlock_of_not_byHand otherOnHand, List.append_assoc] at same
          obtain ⟨_, properties, same⟩ := propertyChain_inj quotable otherQuotable same
          obtain ⟨classNames, same⟩ := handle_inj quotable.name otherQuotable.name same
          exact ⟨by rw [classNames, properties], same⟩

end

theorem includeLine_inj {path other : String} {behind rest : List Char}
    (noQuote : '"' ∉ path.toList) (otherNoQuote : '"' ∉ other.toList)
    (same : (includeLine ("\"" ++ path ++ "\"")).toList ++ behind =
      (includeLine ("\"" ++ other ++ "\"")).toList ++ rest) : path = other ∧ behind = rest := by
  unfold includeLine at same
  simp only [String.toList_append, List.append_assoc, List.append_cancel_left_eq] at same
  obtain ⟨paths, same⟩ := append_inj_of_quote noQuote otherNoQuote (by rfl) (by rfl) same
  exact ⟨String.toList_inj.mp paths, List.append_cancel_left (List.append_cancel_left same)⟩

@[simp] theorem head?_includeLine (target : String) :
    (includeLine target).toList.head? = some '#' := by
  unfold includeLine
  simp only [String.toList_append, List.append_assoc]
  rfl

/-- What the aggregate says about the classes is told by its text. -/
theorem render_inj {names : RegistrationNames} {byHand otherByHand : ScriptClass → Bool}
    {scripts others : List ScriptClass} (isHandle : IsWordText names.handleType.toList)
    (quotable : ∀ script ∈ included scripts, IsQuotable script)
    (otherQuotable : ∀ script ∈ included others, IsQuotable script)
    (same : render names byHand scripts = render names otherByHand others) :
    (included scripts).map (registration byHand) = (included others).map (registration otherByHand) ∧
      includePaths (included scripts) = includePaths (included others) := by
  have noQuote : ∀ {scripts : List ScriptClass}, (∀ script ∈ scripts, IsQuotable script) →
      ∀ path ∈ includePaths scripts, '"' ∉ path.toList := by
    intro scripts quotable path listed
    obtain ⟨script, member, rfl⟩ := List.mem_map.mp (mem_of_mem_keepFirst listed)
    exact (quotable script member).includePath
  have same := congrArg String.toList same
  unfold render at same
  rw [← included, ← included] at same
  simp only [String.toList_append, List.append_assoc, List.append_cancel_left_eq, toList_join_map]
    at same
  obtain ⟨paths, same⟩ := @flatMap_append_inj _ _ _ _ _ id id '#' '\n' _ _ _ _ (by decide)
    (fun _ _ => head?_includeLine _) (fun _ _ => head?_includeLine _)
    (fun path listed other otherListed _ _ => includeLine_inj (noQuote quotable path listed)
      (noQuote otherQuotable other otherListed)) (by rfl) (by rfl) same
  simp only [List.append_cancel_left_eq] at same
  obtain ⟨registrations, _⟩ := @flatMap_append_inj _ _ _ _ _ (registration byHand)
    (registration otherByHand) '\n' '\x7d' _ _ _ _ (by decide)
    (fun _ _ => head?_classBlock _ _ _) (fun _ _ => head?_classBlock _ _ _)
    (fun script member other otherMember _ _ => classBlock_inj isHandle (quotable script member)
      (otherQuotable other otherMember)) (by rfl) (by rfl) same
  exact ⟨registrations, by simpa using paths⟩

theorem handle_congr (names : RegistrationNames) {script other : ScriptClass}
    (sameName : script.name = other.name) : handle names script = handle names other := by
  unfold handle
  rw [sameName]

theorem propertyChain_congr {script other : ScriptClass} (sameName : script.name = other.name)
    (sameProperties : script.properties = other.properties) :
    propertyChain script = propertyChain other := by
  unfold propertyChain
  rw [sameName, sameProperties]

theorem classBlock_congr (names : RegistrationNames) {byHand otherByHand : ScriptClass → Bool}
    {script other : ScriptClass} (same : registration byHand script = registration otherByHand other) :
    classBlock names byHand script = classBlock names otherByHand other := by
  rw [registration, registration, Registration.mk.injEq] at same
  obtain ⟨sameName, sameProperties⟩ := same
  unfold classBlock
  cases onHand : byHand script <;> cases otherOnHand : otherByHand other <;>
    rw [onHand, otherOnHand] at sameProperties
  case false.false =>
    rw [propertyChain_congr sameName (Option.some.inj sameProperties), handle_congr names sameName]
  case true.true => rw [handle_congr names sameName, if_pos rfl, if_pos rfl]
  case false.true => cases sameProperties
  case true.false => cases sameProperties

/-- The text of the aggregate holds nothing but what it says about the classes. -/
theorem render_eq_of_registrations (names : RegistrationNames) {byHand otherByHand : ScriptClass → Bool}
    {scripts others : List ScriptClass}
    (sameRegistrations :
      (included scripts).map (registration byHand) = (included others).map (registration otherByHand))
    (samePaths : includePaths (included scripts) = includePaths (included others)) :
    render names byHand scripts = render names otherByHand others := by
  have sameBlocks : (included scripts).map (classBlock names byHand) =
      (included others).map (classBlock names otherByHand) := by
    generalize included scripts = classes at sameRegistrations
    generalize included others = otherClasses at sameRegistrations
    induction classes generalizing otherClasses with
    | nil => rw [List.map_eq_nil_iff.mp sameRegistrations.symm]; rfl
    | cons script later induction =>
        cases otherClasses with
        | nil => cases sameRegistrations
        | cons other more =>
            rw [List.map_cons, List.map_cons, List.cons.injEq] at sameRegistrations
            rw [List.map_cons, List.map_cons, classBlock_congr names sameRegistrations.1,
              induction _ sameRegistrations.2]
  rw [render, render, ← included, ← included, sameBlocks, samePaths]

theorem included_append_cons {script : ScriptClass} (excluded : script.excluded = true)
    (front back : List ScriptClass) : included (front ++ script :: back) = included (front ++ back) := by
  rw [included, included, List.filter_append, List.filter_append,
    List.filter_cons_of_neg (by simp [excluded])]

/-- Two aggregates of one configuration are the same text exactly if they say the same about the
classes that did not opt out: in order their names, which of them are registered by hand, and the
properties of the others, and each header once where it comes first.  A class that opted out leaves
no trace wherever it stands. -/
theorem render_eq_iff {config : Config} (valid : config.complaint? = none) :
    (∀ (byHand otherByHand : ScriptClass → Bool) (scripts others : List ScriptClass),
      (∀ script ∈ included scripts, IsQuotable script) →
      (∀ script ∈ included others, IsQuotable script) →
        (render config.registration byHand scripts = render config.registration otherByHand others ↔
          (included scripts).map (registration byHand) =
              (included others).map (registration otherByHand) ∧
            includePaths (included scripts) = includePaths (included others))) ∧
    ∀ (byHand : ScriptClass → Bool) (front : List ScriptClass) (script : ScriptClass)
        (back : List ScriptClass), script.excluded = true →
      render config.registration byHand (front ++ script :: back) =
        render config.registration byHand (front ++ back) := by
  have isHandle : IsWordText config.registration.handleType.toList :=
    isWordText_of_isIdentifier (Config.isIdentifier_of_mem_identifiers valid
      ("registration.handle_type", config.registration.handleType) (by simp [Config.identifiers]))
  constructor
  · intro byHand otherByHand scripts others quotable otherQuotable
    exact ⟨render_inj isHandle quotable otherQuotable, fun ⟨registrations, paths⟩ =>
      render_eq_of_registrations _ registrations paths⟩
  · intro byHand front script back excluded
    have same := included_append_cons excluded front back
    exact render_eq_of_registrations _ (by rw [same]) (by rw [same])

/-- A class that is registered by hand in one of two runs, next to one with properties in the same
header. -/
theorem render_eq_iff_gate :
    let config : Config := {}
    let door : ScriptClass := {
      name := "Tür", header := ⟨"in/Door.h"⟩
      properties := [⟨"width", "Map<int,B>"⟩, ⟨"open", "bool"⟩] }
    let wall : ScriptClass := { name := "Wall", header := ⟨"Wall.h"⟩, excluded := true }
    let gate : ScriptClass := { name := "Gate", header := ⟨"in/Door.h"⟩ }
    let byHand (script : ScriptClass) : Bool := script.name = "Gate"
    config.complaint? = none ∧ (∀ script ∈ included [door, wall, gate], IsQuotable script) ∧
      (∀ script ∈ included [door, gate], IsQuotable script) ∧
      render config.registration byHand [door, wall, gate] =
        render config.registration byHand [door, gate] ∧
      render config.registration byHand [door, wall, gate] ≠
        render config.registration (fun _ => false) [door, gate] := by
  intro config door wall gate byHand
  have valid : config.complaint? = none := by decide +kernel
  have doorQuotable : IsQuotable door :=
    ⟨⟨by decide, List.all_eq_true.mp (by decide +kernel)⟩, by
      simp only [door, List.forall_mem_cons]
      exact ⟨isWordText_of_isIdentifier (by decide), isWordText_of_isIdentifier (by decide), by simp⟩,
      by decide, by decide +kernel⟩
  have gateQuotable : IsQuotable gate :=
    ⟨isWordText_of_isIdentifier (by decide), by simp [gate], by simp [gate], by decide +kernel⟩
  have quotable : ∀ script ∈ included [door, gate], IsQuotable script :=
    List.forall_mem_cons.mpr ⟨doorQuotable, List.forall_mem_singleton.mpr gateQuotable⟩
  obtain ⟨told, untouched⟩ := render_eq_iff valid
  refine ⟨valid, quotable, quotable, untouched byHand [door] wall [gate] rfl, fun same => ?_⟩
  have sameRegistrations := ((told _ _ _ _ quotable quotable).mp same).1
  exact absurd sameRegistrations (by decide)

end Aggregate

end ScriptRegistrar
