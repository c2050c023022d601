import ScriptRegistrar.Proofs.Crediting
import ScriptRegistrar.Proofs.Printing.BodyReading

/-!
# The record of a printed class

The three searches for handlers together find the messages of the model: a marked handler that
the search for bare declarations finds again is not credited twice.  A class opts out exactly if
the token for it is printed.
-/

namespace ScriptRegistrar.Printing

open Text Text.Cursor Text.Recogniser Handler Handler.Head MemberModel

variable {markers : Markers}

theorem message_declaration (rule : DiscoveryRule) (function : String)
    (parameters : List ParameterModel) :
    Declaration.message rule ⟨[], function.toList, printParameters parameters⟩ =
      message readTypes rule function function parameters := by
  have noLabel : trim [] = [] := rfl
  simp [Declaration.message, message, readTypes, noLabel]

theorem message_labelledDeclaration {label : String} (labelFits : IsName markers label)
    (function : String) (parameters : List ParameterModel) :
    Declaration.message .namedMarker ⟨label.toList, function.toList, printParameters parameters⟩ =
      message readTypes .namedMarker label function parameters := by
  have unchanged := trim_eq_self (ParameterModel.isTrimmed_name labelFits)
  have nonempty : ¬ label.toList.isEmpty = true := by simpa using labelFits.isWordText.1
  simp only [Declaration.message, message, readTypes, unchanged, nonempty]
  simp

/-- The message that a bare declaration of a handler would have. -/
def MemberModel.handler? : MemberModel → Option Message
  | marked function parameters | labelled _ function parameters | bare function parameters =>
    some (message readTypes .signature function function parameters)
  | property .. => none

/-- What is picked from declarations is picked from the members themselves. -/
theorem map_filterMap_members {declared : MemberModel → Option Declaration}
    {pick : MemberModel → Option Message} {rule : DiscoveryRule}
    (same : ∀ member : MemberModel, member.WellFormed markers →
      (declared member).map (Declaration.message rule) = pick member)
    {members : List MemberModel} (fit : ∀ member ∈ members, member.WellFormed markers) :
    (members.filterMap declared).map (Declaration.message rule) = members.filterMap pick := by
  induction members with
  | nil => rfl
  | cons member others induction =>
      obtain ⟨memberFits, othersFit⟩ := List.forall_mem_cons.mp fit
      have first := same member memberFits
      cases declares : declared member with
      | none =>
          rw [declares] at first
          simp [declares, ← first, induction othersFit]
      | some declaration =>
          rw [declares] at first
          simp [declares, ← first, induction othersFit]

section

variable (legible : markers.Legible) {setup : List Char} (quiet : IsQuiet markers setup)
  {model : ClassModel} (fits : model.WellFormed markers) (takesPart : model.suppressed = false)

include legible quiet fits takesPart

theorem found_marker (table : SignatureTable) :
    Members.found .marker markers table (model.printBody markers setup) =
      model.members.filterMap (marked? readTypes) := by
  have listed : markers.message ∈ markers.tokens := by simp [Markers.tokens]
  rw [Members.found, Declaration.all, (finds_marked legible).body (advances_readMarked? _)
    (begins_readMarked? (legible.isWordText listed)) (unknown_token legible listed)
    (fun word ordinary => ordinary.notMarker _ listed) quiet fits takesPart]
  refine map_filterMap_members (fun member memberFits => ?_) fits.members
  cases member with
  | marked function parameters =>
      exact congrArg some (message_declaration .marker function parameters)
  | labelled | bare | property => rfl

theorem found_namedMarker (table : SignatureTable) :
    Members.found .namedMarker markers table (model.printBody markers setup) =
      model.members.filterMap (labelled? readTypes) := by
  have listed : markers.namedMessage ∈ markers.tokens := by simp [Markers.tokens]
  rw [Members.found, Declaration.all, (finds_labelled legible).body (advances_readNamed? _)
    (begins_readNamed? (legible.isWordText listed)) (unknown_token legible listed)
    (fun word ordinary => ordinary.notMarker _ listed) quiet fits takesPart]
  refine map_filterMap_members (fun member memberFits => ?_) fits.members
  cases member with
  | labelled label function parameters =>
      exact congrArg some (message_labelledDeclaration memberFits.1 function parameters)
  | marked | bare | property => rfl

theorem found_signature (table : SignatureTable) :
    Members.found .signature markers table (model.printBody markers setup) =
      (model.members.filterMap handler?).filter fun message =>
        table.accepts message.function message.parameters := by
  have searched := (finds_declaration legible).body advances_readBareVoid? begins_readBareVoid?
    (by decide) (fun word ordinary => ordinary.notVoid) quiet fits takesPart
  rw [Members.found, Declaration.all, occurrences_readBare?, searched]
  congr 1
  refine map_filterMap_members (fun member memberFits => ?_) fits.members
  cases member with
  | marked function parameters | labelled label function parameters | bare function parameters =>
      exact congrArg some (message_declaration .signature function parameters)
  | property => rfl

theorem properties_printBody :
    PropertyDeclaration.all markers.property.toList (model.printBody markers setup) =
      model.members.filterMap property? := by
  have listed : markers.property ∈ markers.tokens := by simp [Markers.tokens]
  have searched := (finds_property legible).body (PropertyDeclaration.advances_read? _)
    (PropertyDeclaration.begins_read? (legible.isWordText listed)) (unknown_token legible listed)
    (fun word ordinary => ordinary.notMarker _ listed) quiet fits takesPart
  rwa [List.filterMap_some] at searched

end

/-- Handlers with a marker need not be found again among the bare declarations. -/
theorem filter_handlers (table : SignatureTable) (functions : List String)
    {members : List MemberModel}
    (known : ∀ member ∈ members, ∀ message, (marked? readTypes member = some message ∨
      labelled? readTypes member = some message) → message.function ∈ functions) :
    ((members.filterMap handler?).filter fun message =>
        table.accepts message.function message.parameters).filter
          (fun message => !functions.contains message.function) =
      (members.filterMap (bare? readTypes table)).filter
        fun message => !functions.contains message.function := by
  induction members with
  | nil => rfl
  | cons member others induction =>
      obtain ⟨here, behind⟩ := List.forall_mem_cons.mp known
      have rest := induction behind
      rw [List.filter_filter] at rest ⊢
      cases member with
      | marked function parameters =>
          have listed : function ∈ functions := here _ (Or.inl rfl)
          have notBare : bare? readTypes table (marked function parameters) = none := rfl
          simpa [handler?, List.filterMap_cons_none notBare, message, listed] using rest
      | labelled label function parameters =>
          have listed : function ∈ functions := here _ (Or.inr rfl)
          have notBare : bare? readTypes table (labelled label function parameters) = none := rfl
          simpa [handler?, List.filterMap_cons_none notBare, message, listed] using rest
      | bare function parameters =>
          have found : handler? (bare function parameters) =
              some (message readTypes .signature function function parameters) := rfl
          rw [List.filterMap_cons_some found, List.filter_cons, rest]
          cases accepted : table.accepts function (readTypes parameters) with
          | true =>
              have bareFound : bare? readTypes table (bare function parameters) =
                  some (message readTypes .signature function function parameters) := by
                simp [bare?, message, accepted]
              rw [List.filterMap_cons_some bareFound, List.filter_cons]
              simp [message, accepted]
          | false =>
              have notFound : bare? readTypes table (bare function parameters) = none := by
                simp [bare?, message, accepted]
              rw [List.filterMap_cons_none notFound]
              simp [message, accepted]
      | property type name => exact rest

theorem messagesOf_printBody (legible : markers.Legible) {setup : List Char}
    (quiet : IsQuiet markers setup) {model : ClassModel} (fits : model.WellFormed markers)
    (takesPart : model.suppressed = false) (table : SignatureTable) :
    Members.messagesOf markers table (model.printBody markers setup) =
      model.messages readTypes table := by
  rw [Members.messagesOf_eq_keepFirst, found_marker legible quiet fits takesPart,
    found_namedMarker legible quiet fits takesPart, found_signature legible quiet fits takesPart]
  refine keepFirst_append_congr _ (filter_handlers table _ ?_)
  intro member listed message found
  refine List.mem_map.mpr ⟨message, List.mem_append.mpr (found.imp ?_ ?_), rfl⟩
  · exact fun here => List.mem_filterMap.mpr ⟨member, listed, here⟩
  · exact fun here => List.mem_filterMap.mpr ⟨member, listed, here⟩

theorem mem_words_lines (lines : List MemberModel) {word : List Char}
    (found : word ∈ wordsIn (lines.flatMap (·.print markers))) :
    ∃ member ∈ lines, word ∈ wordsIn (member.print markers) := by
  induction lines with
  | nil => simp at found
  | cons member others induction =>
      rw [List.flatMap_cons, wordsIn_append_of_ended _ (member.ended_print markers)] at found
      rcases List.mem_append.mp found with here | behind
      · exact ⟨member, List.mem_cons_self, here⟩
      · obtain ⟨other, listed, inLine⟩ := induction behind
        exact ⟨other, List.mem_cons_of_mem member listed, inLine⟩

theorem ended_lines (lines : List MemberModel) :
    NotInWord (lines.flatMap (·.print markers)).reverse := by
  induction lines with
  | nil => exact notInWord_nil
  | cons member others induction =>
      rw [List.flatMap_cons, List.reverse_append]
      exact induction.append (member.ended_print markers)

theorem ne_suppress_of_mem_lines (legible : markers.Legible) {lines : List MemberModel}
    (fit : ∀ member ∈ lines, member.WellFormed markers) :
    ∀ word ∈ wordsIn (lines.flatMap (·.print markers)), ¬ word = markers.suppress.toList := by
  intro word found
  obtain ⟨member, inLines, inLine⟩ := mem_words_lines lines found
  have distinct := legible.distinct
  simp only [Markers.tokens, List.nodup_cons, List.mem_cons, not_or] at distinct
  refine ne_token_of_mem_words legible (fit member inLines) (by simp [Markers.tokens]) ?_ word inLine
  cases member with
  | marked => simp [mark?, distinct.1.2.2.1]
  | labelled => simp [mark?, distinct.2.1.2.1]
  | bare => simp [mark?]
  | property => simp [mark?, distinct.2.2.1.1]

theorem readToken?_word {passed token rest : List Char} (outside : NotInWord passed)
    (isWordText : IsWordText token) (separated : rest.head?.any isWord = false) :
    Members.readToken? token ⟨passed, token ++ rest⟩ =
      some ((), ⟨token.reverse ++ passed, rest⟩) := by
  simp only [Members.readToken?, isBoundary_marker outside isWordText, literal?_append,
    isBoundary_behind_word isWordText separated, guard, if_true, Option.bind_eq_bind,
    Option.pure_def, Option.bind_some]

/-- A class opts out if and only if its token is printed. -/
theorem isSuppressed_printBody (legible : markers.Legible) {setup : List Char}
    (quiet : IsQuiet markers setup) {model : ClassModel} (fits : model.WellFormed markers) :
    Members.isSuppressed markers (model.printBody markers setup) = model.suppressed := by
  have listed : markers.suppress ∈ markers.tokens := by simp [Markers.tokens]
  have isWordText := legible.isWordText listed
  rw [Members.isSuppressed, Cursor.start, first?]
  cases suppressed : model.suppressed with
  | true =>
      have shape : model.printBody markers setup =
          ('\n' :: setup ++ model.members.flatMap (·.print markers)) ++
            (markers.suppress.toList ++ ['\n']) := by
        simp [ClassModel.printBody, suppressed]
      have ended : NotInWord
          ('\n' :: setup ++ model.members.flatMap (·.print markers)).reverse := by
        rw [List.reverse_append]
        exact (ended_lines model.members).append quiet.ended_line
      rw [shape]
      apply firstFrom?_isSome
      rw [List.append_nil, readToken?_word ended isWordText rfl]
      rfl
  | false =>
      have shape : model.printBody markers setup =
          '\n' :: setup ++ model.members.flatMap (·.print markers) := by
        simp [ClassModel.printBody, suppressed]
      have nothing := @firstFrom?_eq_none_of_clear _ _ _ (Members.begins_readToken? isWordText)
        (unknown_token legible listed) (model.printBody markers setup) [] notInWord_nil
      rw [nothing]
      · rfl
      · rw [shape, wordsIn_append_of_ended _ quiet.ended_line,
          wordsIn_cons_of_not_isWord _ (by decide)]
        intro word found
        rcases List.mem_append.mp found with inSetup | inLines
        · exact (quiet.ordinary word inSetup).notMarker _ listed
        · exact ne_suppress_of_mem_lines legible fits.members word inLines

theorem record_printBody {scanner : Scanner} (legible : scanner.markers.Legible)
    {setup : List Char} (quiet : IsQuiet scanner.markers setup) {model : ClassModel}
    (fits : model.WellFormed scanner.markers) (header : Path) :
    scanner.record header model.name (model.printBody scanner.markers setup) =
      model.recordOf readTypes scanner.table header := by
  rw [Scanner.record, Members.scan, isSuppressed_printBody legible quiet fits, ClassModel.recordOf]
  cases suppressed : model.suppressed with
  | true => rfl
  | false =>
      simp only [Bool.false_eq_true, if_false,
        messagesOf_printBody legible quiet fits suppressed scanner.table,
        properties_printBody legible quiet fits suppressed]

end ScriptRegistrar.Printing
