import ScriptRegistrar.Proofs.MemberPlaces
import ScriptRegistrar.Proofs.NormalTypes
import ScriptRegistrar.Proofs.ScannedNames

/-!
# Which declaration a message comes from

The three searches of a class body come down to one list: all complete declarations that the first
search finds, then those of the second, then the bare ones with a signature of the table.  Of each
function the first one counts.  So no two messages have one function, no function is credited by a
later search than the first that found it, and every message has a name and types in normal form.
-/

namespace ScriptRegistrar

open Text Text.Cursor Text.Recogniser

/-- The rules whose searches come before that of a rule, and the rule itself. -/
def DiscoveryRule.upTo : DiscoveryRule → List DiscoveryRule
  | .marker => [.marker]
  | .namedMarker => [.marker, .namedMarker]
  | .signature => [.marker, .namedMarker, .signature]

theorem DiscoveryRule.advances_readHead? (markers : Markers) :
    (rule : DiscoveryRule) → Advances (rule.readHead? markers)
  | .marker => Handler.Head.advances_readMarked? _
  | .namedMarker => Handler.Head.advances_readNamed? _
  | .signature => Handler.Head.advances_readBare?

theorem ParameterList.normalForm_of_mem_types {text type : List Char}
    (listed : type ∈ ParameterList.types text) : TypeText.normalForm type = type := by
  unfold ParameterList.types at listed
  simp only at listed
  split at listed
  · cases listed
  · obtain ⟨parameter, _, declares⟩ := List.mem_filterMap.mp listed
    unfold ParameterList.parameterType? at declares
    split at declares
    · cases declares
    · cases declares
      exact TypeText.normalForm_normalForm _

theorem PropertyDeclaration.normalize_type_of_read? {marker : List Char} {cursor next : Cursor}
    {property : Property} (read : PropertyDeclaration.read? marker cursor = some (property, next)) :
    TypeText.normalize property.type = property.type := by
  simp only [PropertyDeclaration.read?, Option.bind_eq_bind, Option.bind_eq_some_iff] at read
  obtain ⟨_, _, _, _, _, _, _, _, declaration⟩ := read
  split at declaration
  · cases declaration
  · simp only [Option.bind_eq_some_iff] at declaration
    obtain ⟨_, _, _, _, equality⟩ := declaration
    cases equality
    simp only [TypeText.normalize, String.toList_ofList, TypeText.normalForm_normalForm]

namespace Handler.Declaration

variable (rule : DiscoveryRule) (declaration : Declaration)

theorem normalize_of_mem_parameters_message {type : String}
    (listed : type ∈ (declaration.message rule).parameters) : TypeText.normalize type = type := by
  obtain ⟨text, isType, rfl⟩ := List.mem_map.mp listed
  rw [TypeText.normalize, String.toList_ofList, ParameterList.normalForm_of_mem_types isType]

theorem name_message_ne_empty (isFunction : IsWordText declaration.function) :
    (declaration.message rule).name ≠ "" := by
  have nonempty : ∀ text : List Char, text ≠ [] → String.ofList text ≠ "" := by
    intro text nonempty equality
    exact nonempty (by simpa using congrArg String.toList equality)
  simp only [message]
  apply nonempty
  split
  · exact isFunction.1
  · rename_i labelled
    exact fun empty => labelled (by simp [empty])

theorem name_message_of_not_labelled (noLabel : declaration.label = []) :
    (declaration.message rule).name = (declaration.message rule).function := by
  simp [message, noLabel, show trim [] = [] from rfl]

end Handler.Declaration

theorem Handler.Head.label_of_readBare? {cursor next : Cursor} {head : Head}
    (read : readBare? cursor = some (head, next)) : head.label = [] := by
  rw [readBare?] at read
  split at read
  · simp only [read?, Option.bind_eq_bind, Option.bind_eq_some_iff] at read
    obtain ⟨_, _, _, _, ⟨_, _⟩, _, _, _, equality⟩ := read
    cases equality
    rfl
  · cases read

namespace Text

variable {α β : Type} [DecidableEq β]

theorem find?_of_mem_keepFirst {key : α → β} {members : List α} {member : α}
    (kept : member ∈ keepFirst key members) :
    members.find? (fun other => key other = key member) = some member := by
  induction members with
  | nil => cases kept
  | cons first rest induction =>
      rcases List.mem_cons.mp kept with rfl | later
      · exact List.find?_cons_of_pos (by simp)
      · obtain ⟨inRest, different⟩ := List.mem_filter.mp later
        rw [List.find?_cons_of_neg (by simpa using Ne.symm (by simpa using different)),
          induction inRest]

@[simp] theorem mem_map_keepFirst {key : α → β} {members : List α} {value : β} :
    value ∈ (keepFirst key members).map key ↔ value ∈ members.map key := by
  induction members with
  | nil => rfl
  | cons first rest induction =>
      rw [keepFirst, List.map_cons, List.map_cons, List.mem_cons, List.mem_cons, ← induction]
      by_cases same : value = key first
      · simp [same]
      · simp only [same, false_or, List.mem_map, List.mem_filter, decide_eq_true_eq]
        constructor
        · rintro ⟨member, ⟨kept, _⟩, rfl⟩
          exact ⟨member, kept, rfl⟩
        · rintro ⟨member, kept, rfl⟩
          exact ⟨member, ⟨kept, same⟩, rfl⟩

end Text

namespace Members

variable {markers : Markers} {table : SignatureTable} {body : List Char}

theorem rule_of_mem_found {rule : DiscoveryRule} {message : Message}
    (listed : message ∈ found rule markers table body) : message.rule = rule := by
  obtain ⟨_, _, rfl⟩ := exists_declaration_of_mem_found listed
  rfl

theorem mem_found_of_mem_messagesOf {message : Message}
    (listed : message ∈ messagesOf markers table body) :
    message ∈ found message.rule markers table body := by
  rw [messagesOf_eq_keepFirst] at listed
  rcases List.mem_append.mp (mem_of_mem_keepFirst listed) with marked | bare
  · rcases List.mem_append.mp marked with plain | named
    · rwa [rule_of_mem_found plain]
    · rwa [rule_of_mem_found named]
  · rwa [rule_of_mem_found bare]

/-- Every function that is found is credited. -/
theorem exists_credited_of_mem_found {rule : DiscoveryRule} {message : Message}
    (isFound : message ∈ found rule markers table body) :
    ∃ other ∈ messagesOf markers table body, other.function = message.function := by
  rw [messagesOf_eq_keepFirst]
  apply List.mem_map.mp
  rw [mem_map_keepFirst]
  refine List.mem_map.mpr ⟨message, ?_, rfl⟩
  cases rule with
  | marker => exact List.mem_append_left _ (List.mem_append_left _ isFound)
  | namedMarker => exact List.mem_append_left _ (List.mem_append_right _ isFound)
  | signature => exact List.mem_append_right _ isFound

/-- A function is credited by the first search that finds it. -/
theorem rule_mem_upTo_of_mem_found {rule : DiscoveryRule} {first message : Message}
    (isFound : first ∈ found rule markers table body)
    (listed : message ∈ messagesOf markers table body)
    (same : message.function = first.function) : message.rule ∈ rule.upTo := by
  rw [messagesOf_eq_keepFirst] at listed
  have isFirst := find?_of_mem_keepFirst listed
  have settled : ∀ {rule : DiscoveryRule},
      (found rule markers table body).find? (fun other => other.function = message.function) =
        some message → message.rule = rule :=
    fun finds => rule_of_mem_found (List.mem_of_find?_eq_some finds)
  have finds : ((found rule markers table body).find? fun other =>
      other.function = message.function).isSome = true :=
    List.find?_isSome.mpr ⟨first, isFound, by simp [same]⟩
  rw [List.find?_append, List.find?_append] at isFirst
  cases rule with
  | signature => cases message.rule <;> simp [DiscoveryRule.upTo]
  | marker =>
      obtain ⟨other, plain⟩ := Option.isSome_iff_exists.mp finds
      rw [plain, Option.some_or, Option.some_or, Option.some.injEq] at isFirst
      subst isFirst
      simp [settled plain, DiscoveryRule.upTo]
  | namedMarker =>
      obtain ⟨other, named⟩ := Option.isSome_iff_exists.mp finds
      cases plain : (found .marker markers table body).find? fun other =>
          other.function = message.function with
      | some earlier =>
          rw [plain, Option.some_or, Option.some_or, Option.some.injEq] at isFirst
          subst isFirst
          simp [settled plain, DiscoveryRule.upTo]
      | none =>
          rw [plain, named, Option.none_or, Option.some_or, Option.some.injEq] at isFirst
          subst isFirst
          simp [settled named, DiscoveryRule.upTo]

theorem name_eq_function_of_mem_found {message : Message}
    (listed : message ∈ found .signature markers table body) : message.name = message.function := by
  obtain ⟨declaration, declared, rfl⟩ := exists_declaration_of_mem_found listed
  obtain ⟨_, head, _, read, label, _⟩ := Handler.exists_head_of_mem_all declared
  exact declaration.name_message_of_not_labelled .signature
    (label.trans (Handler.Head.label_of_readBare? read))

theorem name_ne_empty_of_mem_found {rule : DiscoveryRule} {message : Message}
    (listed : message ∈ found rule markers table body) : message.name ≠ "" := by
  have isFunction := isWordText_of_mem_found listed
  obtain ⟨declaration, _, rfl⟩ := exists_declaration_of_mem_found listed
  exact declaration.name_message_ne_empty rule (by simpa [Handler.Declaration.message] using isFunction)

theorem normalize_of_mem_parameters {rule : DiscoveryRule} {message : Message} {type : String}
    (listed : message ∈ found rule markers table body) (declares : type ∈ message.parameters) :
    TypeText.normalize type = type := by
  obtain ⟨declaration, _, rfl⟩ := exists_declaration_of_mem_found listed
  exact declaration.normalize_of_mem_parameters_message rule declares

/-- Whether the members of a class are credited in the order of the rules: of all complete
declarations, those of one rule behind those of the rule before, the first one of each function
counts. -/
structure CreditedInOrder (markers : Markers) (table : SignatureTable) (body : List Char)
    (members : Members) : Prop where
  notSuppressed : members.suppressed = false
  /-- The messages are the first ones of their functions in the list of all declarations. -/
  messages : members.messages = keepFirst (·.function)
    ((Handler.Declaration.all (DiscoveryRule.marker.readHead? markers) body).map
        (Handler.Declaration.message .marker) ++
      (Handler.Declaration.all (DiscoveryRule.namedMarker.readHead? markers) body).map
        (Handler.Declaration.message .namedMarker) ++
      ((Handler.Declaration.all (DiscoveryRule.signature.readHead? markers) body).map
        (Handler.Declaration.message .signature)).filter fun message =>
          table.accepts message.function message.parameters)
  /-- The declarations of a rule are the heads that a search from the start of the body comes upon,
  as far as they are completed.  A token within a head is a part of it and marks nothing. -/
  declarations : ∀ rule : DiscoveryRule, ∃ heads,
    Enumerates (rule.readHead? markers) (Cursor.start body) heads ∧
      Handler.Declaration.all (rule.readHead? markers) body =
        heads.filterMap Handler.Head.complete?
  functions : members.messages.Pairwise (·.function ≠ ·.function)
  /-- A function with a marked declaration is credited, and by no later rule. -/
  precedence : ∀ rule : DiscoveryRule, rule ≠ .signature →
    ∀ declaration ∈ Handler.Declaration.all (rule.readHead? markers) body,
      (∃ message ∈ members.messages, message.function = String.ofList declaration.function) ∧
        ∀ message ∈ members.messages, message.function = String.ofList declaration.function →
          message.rule ∈ rule.upTo
  signatures : ∀ message ∈ members.messages, message.rule = .signature →
    table.accepts message.function message.parameters = true ∧ message.name = message.function
  names : ∀ message ∈ members.messages, message.name ≠ ""
  parameters : ∀ message ∈ members.messages, ∀ type ∈ message.parameters,
    TypeText.normalize type = type
  properties : ∀ property ∈ members.properties, TypeText.normalize property.type = property.type

theorem precedence_of_mem_all {rule : DiscoveryRule} (marked : rule ≠ .signature)
    {declaration : Handler.Declaration}
    (declared : declaration ∈ Handler.Declaration.all (rule.readHead? markers) body) :
    (∃ message ∈ messagesOf markers table body,
        message.function = String.ofList declaration.function) ∧
      ∀ message ∈ messagesOf markers table body,
        message.function = String.ofList declaration.function → message.rule ∈ rule.upTo := by
  have isFound : declaration.message rule ∈ found rule markers table body := by
    rw [found_eq, messagesBy, if_neg marked]
    exact List.mem_map_of_mem declared
  exact ⟨exists_credited_of_mem_found isFound,
    fun message listed same => rule_mem_upTo_of_mem_found isFound listed same⟩

/-- The searches of a class body that did not opt out are one search in the order of the rules. -/
theorem creditedInOrder_scan (markers : Markers) (table : SignatureTable) (body : List Char)
    (unsuppressed : isSuppressed markers body = false) :
    CreditedInOrder markers table body (scan markers table body) := by
  have members : scan markers table body =
      { messages := messagesOf markers table body
        properties := PropertyDeclaration.all markers.property.toList body } := by
    rw [scan, if_neg (by simp [unsuppressed])]
  have ofFound : ∀ message ∈ messagesOf markers table body,
      message ∈ found message.rule markers table body := fun _ => mem_found_of_mem_messagesOf
  rw [members]
  exact
    { notSuppressed := rfl
      messages := messagesOf_eq_keepFirst markers table body
      declarations := fun rule =>
        ⟨_, enumerates_occurrences (rule.advances_readHead? markers) _, rfl⟩
      functions := by
        change (messagesOf markers table body).Pairwise _
        rw [messagesOf_eq_keepFirst]
        exact keepFirst_pairwise _ _
      precedence := fun rule marked declaration declared => precedence_of_mem_all marked declared
      signatures := by
        intro message listed isBare
        have bare := ofFound message listed
        rw [isBare] at bare
        exact ⟨(List.mem_filter.mp bare).2, name_eq_function_of_mem_found bare⟩
      names := fun message listed => name_ne_empty_of_mem_found (ofFound message listed)
      parameters := fun message listed _ declares =>
        normalize_of_mem_parameters (ofFound message listed) declares
      properties := by
        intro property listed
        obtain ⟨_, _, read⟩ := exists_read_of_mem_occurrences listed
        exact PropertyDeclaration.normalize_type_of_read? read }

/-- The second marker in front of `Open` and the signature of `Awake` come too late. -/
theorem creditedInOrder_scan_door :
    let markers : Markers := { message := "M", namedMessage := "N", property := "P" }
    let body := ("void Update();N(\"Shut\")void Open();M()void Open();M()void Awake();" ++
      "N(\" Hit \")void OnHit(const Hit& hit);P()Hit*last;").toList
    (scan markers .engineDefault body).messages =
        [⟨"Open", "Open", [], .marker⟩, ⟨"Awake", "Awake", [], .marker⟩,
          ⟨"Hit", "OnHit", ["Hit"], .namedMarker⟩, ⟨"Update", "Update", [], .signature⟩] ∧
      CreditedInOrder markers .engineDefault body (scan markers .engineDefault body) := by
  intro markers body
  exact ⟨by decide +kernel, creditedInOrder_scan markers .engineDefault body (by decide +kernel)⟩

end Members

end ScriptRegistrar
