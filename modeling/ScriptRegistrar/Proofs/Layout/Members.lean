import ScriptRegistrar.Proofs.Layout.ParameterTypes
import ScriptRegistrar.Proofs.Layout.Reading
import ScriptRegistrar.Proofs.MemberPlaces
import ScriptRegistrar.Proofs.PropertyRecognition
import ScriptRegistrar.Proofs.ScannedNames

/-!
# Members in two layouts

Two layouts of a class body declare the same handlers and properties.  A label keeps its blanks,
so the message of a named marker is the same only if its label has no blank inside; everything
else that a record states is free of the layout.
-/

namespace ScriptRegistrar

open Text Text.Cursor Text.Recogniser

structure Markers.AreWords (markers : Markers) : Prop where
  message : IsWordText markers.message.toList
  namedMessage : IsWordText markers.namedMessage.toList
  property : IsWordText markers.property.toList
  suppress : IsWordText markers.suppress.toList

/-- The markers of a configuration that there is nothing to complain about are words. -/
theorem Config.areWords_markers {config : Config} (valid : config.complaint? = none) :
    config.markers.AreWords := by
  have identifiers := Config.isIdentifier_of_mem_identifiers valid
  simp only [Config.identifiers, List.forall_mem_cons] at identifiers
  obtain ⟨_, message, namedMessage, property, suppress, _⟩ := identifiers
  exact ⟨isWordText_of_isIdentifier message, isWordText_of_isIdentifier namedMessage,
    isWordText_of_isIdentifier property, isWordText_of_isIdentifier suppress⟩

namespace Bracketed

/-- What brackets hold and what follows them, both as layouts of one another. -/
def PartsRelaid (left right : List Char × List Char) : Prop :=
  Relaid left.1 right.1 ∧ Relaid left.2 right.2

theorem rel_map_prepend {before otherBefore : List Char}
    {left right : Option (List Char × List Char)} (relaid : Relaid before otherBefore)
    (related : Option.Rel PartsRelaid left right) :
    Option.Rel PartsRelaid (left.map (prepend before)) (right.map (prepend otherBefore)) := by
  cases related with
  | some related => exact .some ⟨relaid.append related.1, related.2⟩
  | none => exact .none

/-- Brackets close alike in two layouts. -/
theorem close?_relaid {opening closing : Char} (openingSolid : isBlank opening = false)
    (closingSolid : isBlank closing = false) (different : closing ≠ opening)
    {left right : List Char} (relaid : Relaid left right) (depth : Nat) :
    Option.Rel PartsRelaid (close? opening closing depth left)
      (close? opening closing depth right) := by
  induction relaid generalizing depth with
  | nil => exact .none
  | @character next left right solid rest induction =>
      by_cases isOpening : next = opening
      · rw [isOpening, close?_opening, close?_opening]
        exact rel_map_prepend (.singleton openingSolid) (induction (depth + 1))
      · by_cases isClosing : next = closing
        · rw [isClosing]
          cases depth with
          | zero =>
              rw [close?_closing_zero different, close?_closing_zero different]
              exact .some ⟨.nil, rest⟩
          | succ depth =>
              rw [close?_closing_succ different, close?_closing_succ different]
              exact rel_map_prepend (.singleton closingSolid) (induction depth)
        · rw [close?_cons_of_ne isOpening isClosing, close?_cons_of_ne isOpening isClosing]
          exact rel_map_prepend (.singleton solid) (induction depth)
  | blanks first second _ induction =>
      have balanced : ∀ {run : List Char}, IsBlankRun run → Balanced opening closing run :=
        fun isRun => .of_not_mem (isRun.not_mem openingSolid) (isRun.not_mem closingSolid)
      rw [close?_append_of_balanced different (balanced first),
        close?_append_of_balanced different (balanced second)]
      exact rel_map_prepend (.of_runs first second) (induction depth)

end Bracketed

namespace Handler

structure Head.Alike (left right : Head) : Prop where
  label : Relaid left.label right.label
  function : left.function = right.function
  behind : Relaid left.behind right.behind

structure Declaration.Alike (left right : Declaration) : Prop where
  label : Relaid left.label right.label
  function : left.function = right.function
  parameters : Relaid left.parameters right.parameters

namespace Head

theorem endsDeclaration_eq_of_relaid {left right : List Char} (relaid : Relaid left right) :
    endsDeclaration left = endsDeclaration right := by
  have behindConst := (alike_start relaid).passBlanks.passOptional
    (show IsSolid "const".toList by decide)
  have behindOverride := behindConst.passOptional (show IsSolid "override".toList by decide)
  have behindFinal := behindOverride.passOptional (show IsSolid "final".toList by decide)
  exact behindFinal.nextIs (.eq_sign rfl)

theorem complete?_alike {left right : Head} (alike : Alike left right) :
    Option.Rel Declaration.Alike left.complete? right.complete? := by
  have closed := @Bracketed.close?_relaid '(' ')' rfl rfl (by decide) _ _ alike.behind 0
  apply rel_bind closed
  rintro ⟨parameters, behind⟩ ⟨otherParameters, otherBehind⟩ ⟨sameParameters, sameBehind⟩
  apply rel_bind (rel_guard (endsDeclaration_eq_of_relaid sameBehind))
  intro _ _ _
  exact .some ⟨alike.label, alike.function, sameParameters⟩

variable {label otherLabel : List Char} (sameLabel : Relaid label otherLabel)
  {left right : Cursor} (alike : left.Alike right)

include sameLabel alike

theorem readVoid?_alike :
    Option.Rel (AlikeBehind Alike) (readVoid? label left) (readVoid? otherLabel right) := by
  apply rel_bind (alike.sign? (show IsSolid "void".toList by decide))
  intro result otherResult sameResult
  apply rel_bind sameResult.blanks?
  intro name otherName sameName
  apply rel_bind sameName.word?
  rintro ⟨function, behindName⟩ ⟨otherFunction, otherBehindName⟩ ⟨sameFunction, sameBehindName⟩
  apply rel_bind (sameBehindName.passBlanks.sign? (show IsSolid "(".toList by decide))
  intro behind otherBehind sameBehind
  exact .some ⟨⟨sameLabel, sameFunction, sameBehind.ahead⟩, sameBehind⟩

theorem read?_alike :
    Option.Rel (AlikeBehind Alike) (read? label left) (read? otherLabel right) := by
  apply readVoid?_alike sameLabel
  apply rel_getD _ alike
  apply rel_bind (alike.sign? (show IsSolid "virtual".toList by decide))
  exact fun _ _ sameBehind => sameBehind.blanks?

end Head

namespace Head

variable {marker : List Char} (solid : IsSolid marker)

include solid

theorem readMarked?_alike : ReadsAlike (AlikeBehind Alike) (readMarked? marker) := by
  intro left right alike
  apply rel_bind (rel_guard alike.isBoundary)
  intro _ _ _
  apply rel_bind (alike.literal? solid)
  intro behindMarker otherBehindMarker sameBehindMarker
  apply rel_bind (sameBehindMarker.passBlanks.sign? (show IsSolid "(".toList by decide))
  intro inside otherInside sameInside
  apply rel_bind (sameInside.passBlanks.sign? (show IsSolid ")".toList by decide))
  intro behind otherBehind sameBehind
  exact read?_alike .nil sameBehind.passBlanks

theorem readNamed?_alike : ReadsAlike (AlikeBehind Alike) (readNamed? marker) := by
  have quote : IsSolid "\"".toList := by decide
  have inLabel : IgnoresLayout (fun character => decide (character ≠ '"')) := .ne_sign rfl
  intro left right alike
  apply rel_bind (rel_guard alike.isBoundary)
  intro _ _ _
  apply rel_bind (alike.literal? solid)
  intro behindMarker otherBehindMarker sameBehindMarker
  apply rel_bind (sameBehindMarker.passBlanks.sign? (show IsSolid "(".toList by decide))
  intro inside otherInside sameInside
  apply rel_bind (sameInside.passBlanks.sign? quote)
  intro quoted otherQuoted sameQuoted
  apply rel_bind ((sameQuoted.passWhile inLabel).sign? quote)
  intro behindLabel otherBehindLabel sameBehindLabel
  apply rel_bind (sameBehindLabel.passBlanks.sign? (show IsSolid ")".toList by decide))
  intro behind otherBehind sameBehind
  exact read?_alike (sameQuoted.ahead.takeWhile inLabel) sameBehind.passBlanks

end Head

theorem Head.readBareVoid?_alike : ReadsAlike (AlikeBehind Alike) readBareVoid? := by
  intro left right alike
  unfold readBareVoid?
  rw [alike.isBoundary]
  split
  · exact readVoid?_alike .nil alike
  · exact .none

namespace Declaration

theorem filterMap_complete?_alike {heads others : List Head}
    (alike : List.Forall₂ Head.Alike heads others) :
    List.Forall₂ Alike (heads.filterMap Head.complete?) (others.filterMap Head.complete?) :=
  List.rel_filterMap (fun _ _ same => Head.complete?_alike same) alike

/-- Handlers are declared alike in two layouts, whatever marks them. -/
theorem all_alike {markers : Markers} (words : markers.AreWords) (rule : DiscoveryRule)
    {left right : List Char} (relaid : Relaid left right) :
    List.Forall₂ Alike (all (rule.readHead? markers) left)
      (all (rule.readHead? markers) right) := by
  apply filterMap_complete?_alike
  have alike := alike_start relaid
  cases rule with
  | marker =>
      exact occurrences_alike (fun empty => words.message.1 empty.symm)
        (Head.advances_readMarked? _)
        (Head.readMarked?_alike (isSolid_of_isWordText words.message))
        (Head.begins_readMarked? words.message) alike
  | namedMarker =>
      exact occurrences_alike (fun empty => words.namedMessage.1 empty.symm)
        (Head.advances_readNamed? _)
        (Head.readNamed?_alike (isSolid_of_isWordText words.namedMessage))
        (Head.begins_readNamed? words.namedMessage) alike
  | signature =>
      unfold DiscoveryRule.readHead?
      rw [Head.occurrences_readBare?, Head.occurrences_readBare?]
      exact occurrences_alike (by decide) Head.advances_readBareVoid? Head.readBareVoid?_alike
        Head.begins_readBareVoid? alike

theorem message_eq_of_alike {left right : Declaration} (alike : Alike left right)
    (solid : IsSolid (trim left.label)) (rule : DiscoveryRule) :
    left.message rule = right.message rule := by
  have label := alike.label.trim.eq_of_solid solid
  unfold message
  rw [label, alike.function, ParameterList.types_eq_of_relaid alike.parameters]

theorem map_message_eq_of_alike {declarations others : List Declaration}
    (alike : List.Forall₂ Alike declarations others)
    (solid : ∀ declaration ∈ declarations, IsSolid (trim declaration.label))
    (rule : DiscoveryRule) : declarations.map (message rule) = others.map (message rule) := by
  induction alike with
  | nil => rfl
  | cons first _ induction =>
      obtain ⟨firstSolid, othersSolid⟩ := List.forall_mem_cons.mp solid
      rw [List.map_cons, List.map_cons, message_eq_of_alike first firstSolid rule,
        induction othersSolid]

theorem label_of_readVoid? {label : List Char} {cursor next : Cursor} {head : Head}
    (read : Head.readVoid? label cursor = some (head, next)) : head.label = label := by
  simp only [Head.readVoid?, Option.bind_eq_bind, Option.bind_eq_some_iff] at read
  obtain ⟨_, _, _, _, _, _, _, _, equality⟩ := read
  cases equality
  rfl

/-- Only a named marker gives a declaration a label. -/
theorem label_eq_nil {markers : Markers} {rule : DiscoveryRule} (unnamed : rule ≠ .namedMarker)
    {body : List Char} {declaration : Declaration}
    (listed : declaration ∈ all (rule.readHead? markers) body) : declaration.label = [] := by
  obtain ⟨place, head, next, read, label, _⟩ := exists_head_of_mem_all listed
  rw [label]
  cases rule with
  | marker =>
      simp only [DiscoveryRule.readHead?, Head.readMarked?, Option.bind_eq_bind,
        Option.bind_eq_some_iff] at read
      obtain ⟨_, _, _, _, _, _, _, _, bare⟩ := read
      exact label_of_readVoid? bare
  | namedMarker => exact (unnamed rfl).elim
  | signature =>
      rw [DiscoveryRule.readHead?, Head.readBare?] at read
      split at read
      · exact label_of_readVoid? read
      · cases read

end Declaration

end Handler

namespace PropertyDeclaration

theorem passInitializer_alike {left right : Cursor} (alike : left.Alike right) :
    Option.Rel Alike (passInitializer left) (passInitializer right) := by
  unfold passInitializer
  rw [alike.nextIs (@IgnoresLayout.eq_sign '=' rfl),
    alike.nextIs (@IgnoresLayout.eq_sign '\x7b' rfl)]
  split
  · exact .some (alike.passWhile (.ne_sign rfl))
  · split
    · exact (alike.passWhile (.ne_sign rfl)).sign? (show IsSolid "\x7d".toList by decide)
    · exact .some alike

theorem readDeclarator?_alike : ReadsAlike (AlikeBehind (· = ·)) readDeclarator? := by
  intro left right alike
  have start := alike.passBlanks
  apply rel_bind (rel_guard start.isBoundary)
  intro _ _ _
  apply rel_bind start.word?
  rintro ⟨name, behindName⟩ ⟨otherName, otherBehindName⟩ ⟨sameName, sameBehindName⟩
  apply rel_bind (passInitializer_alike sameBehindName.passBlanks)
  intro behindValue otherBehindValue sameBehindValue
  apply rel_bind (sameBehindValue.sign? (show IsSolid ";".toList by decide))
  intro behind otherBehind sameBehind
  exact .some ⟨sameName, sameBehind⟩

/-- A declarator is looked for behind the blanks that come next. -/
theorem readDeclarator?_cons_of_isBlank {next : Char} (blank : isBlank next = true)
    (passed rest : List Char) :
    readDeclarator? ⟨passed, next :: rest⟩ = readDeclarator? ⟨next :: passed, rest⟩ := by
  have same : (Cursor.mk passed (next :: rest)).passBlanks =
      (Cursor.mk (next :: passed) rest).passBlanks := by
    simp [passBlanks, passWhile, blank]
  unfold readDeclarator?
  rw [same]

/-- A type goes on behind a run of blanks if no declarator follows it. -/
theorem readType?_append_blanks {run : List Char}
    (blank : ∀ character ∈ run, isBlank character = true) {type passed rest : List Char}
    (noDeclarator : readDeclarator? ⟨passed, run ++ rest⟩ = none) :
    readType? type passed (run ++ rest) =
      readType? (run.reverse ++ type) (run.reverse ++ passed) rest := by
  induction run generalizing type passed with
  | nil => rfl
  | cons next others induction =>
      obtain ⟨nextBlank, othersBlank⟩ := List.forall_mem_cons.mp blank
      rw [List.cons_append] at noDeclarator
      rw [List.cons_append, readType?_of_isTypeChar noDeclarator (isTypeChar_of_isBlank nextBlank)]
      rw [readDeclarator?_cons_of_isBlank nextBlank] at noDeclarator
      rw [induction othersBlank noDeclarator]
      simp

theorem readType?_alike {left right : List Char} (relaid : Relaid left right)
    {type otherType passed otherPassed : List Char} (sameType : Relaid type otherType)
    (samePassed : Relaid passed otherPassed) :
    Option.Rel (AlikeBehind fun first second => Relaid first.1 second.1 ∧ first.2 = second.2)
      (readType? type passed left) (readType? otherType otherPassed right) := by
  induction relaid generalizing type otherType passed otherPassed with
  | nil => exact .none
  | @character next left right solid rest induction =>
      have here := readDeclarator?_alike ⟨passed, next :: left⟩ ⟨otherPassed, next :: right⟩
        ⟨samePassed, .character solid rest⟩
      rw [readType?_cons, readType?_cons]
      generalize readDeclarator? ⟨passed, next :: left⟩ = declarator at here ⊢
      generalize readDeclarator? ⟨otherPassed, next :: right⟩ = otherDeclarator at here ⊢
      cases here with
      | some related => exact .some ⟨⟨sameType.reverse, related.1⟩, related.2⟩
      | none =>
          simp only
          split
          · exact induction (.character solid sameType) (.character solid samePassed)
          · exact .none
  | @blanks run other left right first second rest induction =>
      have here := readDeclarator?_alike ⟨passed, run ++ left⟩ ⟨otherPassed, other ++ right⟩
        ⟨samePassed, .blanks first second rest⟩
      rcases cases_of_rel here with
        ⟨declarator, otherDeclarator⟩ | ⟨found, otherFound, declarator, otherDeclarator, related⟩
      · rw [readType?_append_blanks first.blank declarator,
          readType?_append_blanks second.blank otherDeclarator]
        exact induction (.blanks first.reverse second.reverse sameType)
          (.blanks first.reverse second.reverse samePassed)
      · obtain ⟨_, _, rfl, _⟩ := first.exists_cons
        obtain ⟨_, _, rfl, _⟩ := second.exists_cons
        rw [List.cons_append] at declarator otherDeclarator
        rw [List.cons_append, List.cons_append, readType?_of_declarator declarator,
          readType?_of_declarator otherDeclarator]
        exact .some ⟨⟨sameType.reverse, related.1⟩, related.2⟩

theorem read?_alike {marker : List Char} (solid : IsSolid marker) :
    ReadsAlike (AlikeBehind (· = ·)) (read? marker) := by
  intro left right alike
  apply rel_bind (rel_guard alike.isBoundary)
  intro _ _ _
  apply rel_bind (alike.literal? solid)
  intro behindMarker otherBehindMarker sameBehindMarker
  apply rel_bind (sameBehindMarker.passBlanks.sign? (show IsSolid "(".toList by decide))
  intro inside otherInside sameInside
  apply rel_bind (sameInside.passBlanks.sign? (show IsSolid ")".toList by decide))
  intro behind otherBehind sameBehind
  have start := sameBehind.passBlanks
  generalize behind.passBlanks = place at start ⊢
  generalize otherBehind.passBlanks = otherPlace at start ⊢
  obtain ⟨passed, ahead⟩ := place
  obtain ⟨otherPassed, otherAhead⟩ := otherPlace
  obtain ⟨samePassed, sameAhead⟩ := start
  cases sameAhead with
  | nil => exact .none
  | character firstSolid rest =>
      apply rel_bind (rel_guard rfl)
      intro _ _ _
      apply rel_bind (readType?_alike rest (.singleton firstSolid)
        (.character firstSolid samePassed))
      rintro ⟨⟨type, name⟩, last⟩ ⟨⟨otherType, otherName⟩, otherLast⟩ ⟨related, sameLast⟩
      obtain ⟨sameType, sameName⟩ := related
      refine .some ⟨?_, sameLast⟩
      simp only at sameType sameName ⊢
      rw [sameName, TypeText.normalForm_eq_of_relaid sameType]
  | blanks first second =>
      obtain ⟨blank, _, rfl, isBlank, _⟩ := first.exists_cons
      obtain ⟨otherBlank, _, rfl, isOtherBlank, _⟩ := second.exists_cons
      change Option.Rel _ (Option.bind (guard (isIdentifierStart blank = true)) _)
        (Option.bind (guard (isIdentifierStart otherBlank = true)) _)
      rw [isIdentifierStart_of_isBlank isBlank, isIdentifierStart_of_isBlank isOtherBlank]
      exact .none

theorem all_eq_of_relaid {marker : List Char} (isWordText : IsWordText marker)
    {left right : List Char} (relaid : Relaid left right) : all marker left = all marker right := by
  have alike := occurrences_alike (fun empty => isWordText.1 empty.symm) (advances_read? marker)
    (read?_alike (isSolid_of_isWordText isWordText)) (begins_read? isWordText) (alike_start relaid)
  rwa [List.forall₂_eq_eq_eq] at alike

end PropertyDeclaration

namespace Members

/-- Whether no label that a named marker gives a handler of a body has a blank inside. -/
def HasSolidLabels (markers : Markers) (body : List Char) : Prop :=
  ∀ declaration ∈ Handler.Declaration.all
    (Handler.Head.readNamed? markers.namedMessage.toList) body, IsSolid (trim declaration.label)

instance (markers : Markers) (body : List Char) : Decidable (HasSolidLabels markers body) :=
  List.decidableBAll _ _

theorem isSuppressed_eq_of_relaid {markers : Markers}
    (isWordText : IsWordText markers.suppress.toList) {left right : List Char}
    (relaid : Relaid left right) :
    isSuppressed markers left = isSuppressed markers right := by
  have readsAlike : ReadsAlike (AlikeBehind fun _ _ => True)
      (readToken? markers.suppress.toList) := by
    intro first second alike
    apply rel_bind (rel_guard alike.isBoundary)
    intro _ _ _
    apply rel_bind (alike.literal? (isSolid_of_isWordText isWordText))
    intro behind otherBehind sameBehind
    apply rel_bind (rel_guard sameBehind.isBoundary)
    intro _ _ _
    exact .some ⟨trivial, sameBehind⟩
  exact isSome_eq_of_rel (first?_alike (fun empty => isWordText.1 empty.symm) readsAlike
    (begins_readToken? isWordText) (alike_start relaid))

variable {markers : Markers} {table : SignatureTable} (words : markers.AreWords)
  {left right : List Char} (relaid : Relaid left right) (labels : HasSolidLabels markers left)

include words relaid labels

theorem found_eq_of_relaid (rule : DiscoveryRule) :
    found rule markers table left = found rule markers table right := by
  have alike := Handler.Declaration.all_alike words rule relaid
  have solid : ∀ declaration ∈ Handler.Declaration.all (rule.readHead? markers) left,
      IsSolid (trim declaration.label) := by
    intro declaration listed
    by_cases named : rule = .namedMarker
    · subst named
      exact labels declaration listed
    · rw [Handler.Declaration.label_eq_nil named listed]
      decide
  rw [found_eq, found_eq, messagesBy, messagesBy,
    Handler.Declaration.map_message_eq_of_alike alike solid rule]

theorem scan_eq_of_relaid : scan markers table left = scan markers table right := by
  have found := @found_eq_of_relaid markers table words left right relaid labels
  unfold scan messagesOf
  rw [isSuppressed_eq_of_relaid words.suppress relaid, found .marker, found .namedMarker,
    found .signature, PropertyDeclaration.all_eq_of_relaid words.property relaid]

end Members

end ScriptRegistrar
