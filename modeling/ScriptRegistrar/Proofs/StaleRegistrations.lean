import ScriptRegistrar.Proofs.ConstructorClosing
import ScriptRegistrar.Proofs.ConstructorExchange
import ScriptRegistrar.Proofs.ScannedNames

/-!
# Stale registrations

An update drops every line of a constructor that holds the registration statement, and adds one
registration for each message.  Several classes of a text are updated one after the other.  If
each of them keeps to its own constructor, an update leaves the constructors of the others as they
were, so that in the end each one registers what its own messages say and nothing else.
-/

namespace ScriptRegistrar

open Text Bracketed Constructor

namespace Constructor

variable {className : List Char}

theorem HeadFree.append_congr {front tail other : List Char} (isWordText : IsWordText className)
    (free : HeadFree className (front ++ other)) (noBrace : '\x7b' ∉ tail) :
    HeadFree className (front ++ tail) := by
  intro before rest shape
  by_cases brace : '\x7b' ∈ rest
  · obtain ⟨stretch, more, rfl, _⟩ := List.eq_append_cons_of_mem brace
    rw [← List.append_assoc] at shape
    obtain ⟨gap, rfl, rfl⟩ := FoundAt.parts_of_noBrace noBrace shape
    have nowhere := free before (stretch ++ '\x7b' :: (gap ++ other)) (by simp)
    have same := @isSome_readHead?_congr className (gap ++ other) isWordText before.reverse
      before.reverse stretch (gap ++ tail) (by cases stretch <;> rfl)
    rw [nowhere] at same
    simpa using same
  · exact readHead?_of_noBrace isWordText brace

theorem FoundAt.replaceBody_eq {text before front : List Char} {constructor : Constructor}
    (isName : IsClassName className) (found : find? className text = some constructor)
    (foundAt : FoundAt className text before front constructor.body constructor.behind)
    (body : List Char) : Injection.replaceBody constructor body =
      before ++ (front ++ '\x7b' :: (body ++ '\x7d' :: constructor.behind)) := by
  rw [foundAt.find?_eq isName, Option.some.injEq] at found
  have opened := congrArg Constructor.opened found
  rw [Injection.replaceBody, ← opened]
  simp

end Constructor

namespace Injection

/-- The lines of a body that hold the registration statement. -/
def registrationLines (statement : String) (body : List Char) : List (List Char) :=
  (trimmedLines body).filter fun line => contains statement.toList line

/-- Whether the constructor of a class is found in a text and registers its messages, and nothing
else. -/
def Registers (statement : String) (script : ScriptClass) (text : String) : Prop :=
  ∃ constructor, find? script.name.toList text.toList = some constructor ∧
    registrationLines statement constructor.body =
      (keepFirst (·.function) script.messages).map (registration script.name statement)

/-- Whether updates of a constructor with some body do not touch those of other classes: the lines
that stay are balanced, and no head of another constructor starts in the body, neither as it is
nor with the lines that stay alone. -/
structure KeepsToItself (statement : String) (others : List String) (body : List Char) : Prop where
  balanced : Balanced '\x7b' '\x7d' (keptLines statement body).flatten
  free : ∀ other ∈ others, HeadFree other.toList body
  keptFree : ∀ other ∈ others, ∀ ending indent, IsEnding ending → IsIndent indent →
    HeadFree other.toList (renderBody ending indent (keptLines statement body))

/-- Whether each of some classes of a text keeps to its own constructor. -/
structure KeptApart (statement : String) (scripts : List ScriptClass) (text : String) : Prop where
  notSpecifier : ∀ script ∈ scripts, script.name ≠ "noexcept"
  braceless : ∀ script ∈ scripts, ∀ message ∈ script.messages, IsBraceless message.name
  bodies : ∀ script ∈ scripts, ∀ constructor,
    find? script.name.toList text.toList = some constructor →
      KeepsToItself statement ((scripts.map (·.name)).filter (· ≠ script.name)) constructor.body

theorem isBraceless_of_isWordText {name : String} (isWordText : IsWordText name.toList) :
    IsBraceless name :=
  fun character member => not_isBrace (by decide) (by decide) (isWordText.2 character member)

/-- Only the lines of a body without braces matter, which is none. -/
theorem KeepsToItself.of_braceless {statement : String} {others : List String} {body : List Char}
    (areNames : ∀ other ∈ others, IsWordText other.toList)
    (braceless : ∀ character ∈ body, isBrace character = false) :
    KeepsToItself statement others body := by
  have inLines : ∀ line ∈ keptLines statement body, ∀ character ∈ line,
      isBrace character = false := by
    intro line kept character member
    exact braceless character (mem_of_mem_trimmedLines (List.mem_of_mem_filter kept) member)
  have noBrace : ∀ {sign : Char} {text : List Char}, isBrace sign = true →
      (∀ character ∈ text, isBrace character = false) → sign ∉ text := by
    intro sign text isSign none member
    rw [none sign member] at isSign
    cases isSign
  refine ⟨?_, ?_, ?_⟩
  · have inFlat : ∀ character ∈ (keptLines statement body).flatten, isBrace character = false := by
      intro character member
      obtain ⟨line, kept, inLine⟩ := List.mem_flatten.mp member
      exact inLines line kept character inLine
    exact .of_not_mem (noBrace (by decide) inFlat) (noBrace (by decide) inFlat)
  · intro other listed
    exact .of_not_mem (areNames other listed) (noBrace (by decide) braceless)
  · intro other listed ending indent isEnding isIndent
    refine .of_not_mem (areNames other listed) (noBrace (by decide) ?_)
    intro character member
    rcases mem_renderBody isEnding isIndent member with blank | ⟨line, kept, inLine⟩
    · exact not_isBrace_of_isBlank character blank
    · exact inLines line kept character inLine

section

variable {ending indent : List Char} (isEnding : IsEnding ending) (isIndent : IsIndent indent)

include isEnding isIndent

/-- Lines without braces behind the others bring no head. -/
theorem headFree_renderBody {className : List Char} {kept more : List (List Char)}
    (isWordText : IsWordText className) (free : HeadFree className (renderBody ending indent kept))
    (braceless : ∀ line ∈ more, ∀ character ∈ line, isBrace character = false) :
    HeadFree className (renderBody ending indent (kept ++ more)) := by
  rw [renderBody_eq, ← List.append_assoc] at free
  rw [renderBody_eq, List.flatMap_append, List.append_assoc, ← List.append_assoc]
  apply free.append_congr isWordText
  intro member
  have inRendered : '\x7b' ∈ renderBody ending indent more := by
    rw [renderBody_eq]
    exact List.mem_append_right _ member
  rcases mem_renderBody isEnding isIndent inRendered with blank | ⟨line, listed, inLine⟩
  · exact absurd blank (by decide)
  · exact absurd (braceless line listed _ inLine) (by decide)

variable {className statement : String} {messages : List Message}
  (braceless : ∀ line ∈ (keepFirst (·.function) messages).map (registration className statement),
    ∀ character ∈ line, isBrace character = false)

include braceless

theorem exists_keptLines_updatedBody (body : List Char) : ∃ pieces,
    keptLines statement (renderBody ending indent (bodyLines className statement messages body)) =
        keptLines statement body ++ pieces ∧
      ∀ line ∈ pieces, ∀ character ∈ line, isBrace character = false := by
  have areLines : ∀ line ∈ keptLines statement body, IsLine line :=
    fun line kept => (isLine_of_mem_keptLines kept).1
  have staying : (keptLines statement body).filter (stays statement) = keptLines statement body :=
    List.filter_eq_self.mpr fun line kept => (isLine_of_mem_keptLines kept).2.1
  refine ⟨(trimmedLines (((keepFirst (·.function) messages).map
    (registration className statement)).flatMap (renderLine ending indent) ++ indent)).filter
      (stays statement), ?_, ?_⟩
  · rw [keptLines_eq_filter statement (renderBody _ _ _), renderBody_eq, bodyLines,
      List.flatMap_append, List.append_assoc, trimmedLines_renderLines isEnding isIndent areLines,
      List.filter_cons_of_neg (by simp [stays]), List.filter_append, staying]
  · intro line listed character inLine
    have member := mem_of_mem_trimmedLines (List.mem_of_mem_filter listed) inLine
    have inRendered : character ∈ renderBody ending indent ((keepFirst (·.function) messages).map
        (registration className statement)) := by
      rw [renderBody_eq]
      exact List.mem_append_right _ member
    rcases mem_renderBody isEnding isIndent inRendered with blank | ⟨line, registered, inLine⟩
    · exact not_isBrace_of_isBlank character blank
    · exact braceless line registered character inLine

/-- A constructor that keeps to itself does so after it is updated. -/
theorem KeepsToItself.updatedBody {others : List String} {body : List Char}
    (areNames : ∀ other ∈ others, IsWordText other.toList)
    (keeps : KeepsToItself statement others body) :
    KeepsToItself statement others
      (renderBody ending indent (bodyLines className statement messages body)) := by
  obtain ⟨pieces, kept, bracelessPieces⟩ :=
    exists_keptLines_updatedBody isEnding isIndent braceless body
  refine ⟨?_, ?_, ?_⟩
  · have nothing : pieces.flatten.filter isBrace = [] := by
      apply List.filter_eq_nil_iff.mpr
      intro character member
      obtain ⟨line, listed, inLine⟩ := List.mem_flatten.mp member
      simp [bracelessPieces line listed character inLine]
    have sameBraces : (keptLines statement body ++ pieces).flatten.filter isBrace =
        (keptLines statement body).flatten.filter isBrace := by
      rw [List.flatten_append, List.filter_append, nothing, List.append_nil]
    rw [kept, balanced_congr (by decide) isBrace (by decide) (by decide) sameBraces]
    exact keeps.balanced
  · intro other listed
    exact headFree_renderBody isEnding isIndent (areNames other listed)
      (keeps.keptFree other listed ending indent isEnding isIndent) braceless
  · intro other listed otherEnding otherIndent otherIsEnding otherIsIndent
    rw [kept]
    exact headFree_renderBody otherIsEnding otherIsIndent (areNames other listed)
      (keeps.keptFree other listed otherEnding otherIndent otherIsEnding otherIsIndent)
      bracelessPieces

end

/-- An updated body holds the registrations of its messages and no others. -/
theorem registrationLines_updatedBody {ending indent : List Char} (isEnding : IsEnding ending)
    (isIndent : IsIndent indent) {className statement : String} {messages : List Message}
    (notEmpty : statement ≠ "") (areLines : AreLines className statement messages)
    (body : List Char) :
    registrationLines statement
        (renderBody ending indent (bodyLines className statement messages body)) =
      (keepFirst (·.function) messages).map (registration className statement) := by
  -- The updated lines stand between two empty ones, in which no statement is found.
  have empty : contains statement.toList [] = false := by
    simpa [contains] using notEmpty
  have stale : (keptLines statement body).filter (contains statement.toList ·) = [] := by
    apply List.filter_eq_nil_iff.mpr
    intro line kept
    have staying := (isLine_of_mem_keptLines kept).2.1
    simp only [stays, Bool.and_eq_true, Bool.not_eq_true'] at staying
    simp [staying.2]
  have registered : ((keepFirst (·.function) messages).map
      (registration className statement)).filter (contains statement.toList ·) =
        (keepFirst (·.function) messages).map (registration className statement) := by
    apply List.filter_eq_self.mpr
    intro line listed
    obtain ⟨message, _, rfl⟩ := List.mem_map.mp listed
    exact (contains_iff _ _).mpr ⟨[], _, by rw [registration_shape]; rfl⟩
  rw [registrationLines, trimmedLines_renderBody isEnding isIndent
    (isLine_of_mem_bodyLines areLines body), List.filter_cons_of_neg (by simp [empty]),
    List.filter_append, List.filter_cons_of_neg (by simp [empty]), List.filter_nil, List.append_nil,
    bodyLines, List.filter_append, stale, registered, List.nil_append]

theorem oneLine_registration {className statement : String} {message : Message}
    (statementLine : '\n' ∉ statement.toList) (isWordText : IsWordText className.toList)
    (oneLine : '\n' ∉ message.name.toList ∧ '\n' ∉ message.function.toList) :
    '\n' ∉ registration className statement message := by
  intro member
  rcases mem_registration member with inStatement | inName | inClass | inFunction | isSign
  · exact statementLine inStatement
  · exact oneLine.1 inName
  · exact not_mem_of_test isWordText.2 (by decide) inClass
  · exact oneLine.2 inFunction
  · exact absurd isSign (by decide)

theorem areLines_of_oneLine {className statement : String} {messages : List Message}
    (identifier : isIdentifier statement.toList = true) (isWordText : IsWordText className.toList)
    (oneLine : ∀ message ∈ messages,
      '\n' ∉ message.name.toList ∧ '\n' ∉ message.function.toList) :
    AreLines className statement messages := fun message kept =>
  ⟨oneLine_registration (not_mem_of_test (isWordText_of_isIdentifier identifier).2 (by decide))
      isWordText (oneLine message (mem_of_mem_keepFirst kept)),
    isTrimmed_registration identifier message⟩

theorem toList_inject {className statement : String} {messages : List Message} {text : String}
    {constructor : Constructor}
    (found : find? className.toList text.toList = some constructor) :
    (inject className statement messages text).toList =
      replaceBody constructor (renderBody (lineEnding text.toList) constructor.indent
        (bodyLines className statement messages constructor.body)) := by
  simp [inject, inject?, update?, found]

theorem inject_of_find?_eq_none {className : String} {text : String}
    (notFound : find? className.toList text.toList = none) (statement : String)
    (messages : List Message) : inject className statement messages text = text := by
  simp [inject, inject?, update?, notFound]

theorem mem_otherNames {scripts : List ScriptClass} {script other : ScriptClass}
    (listed : script ∈ scripts) (different : other.name ≠ script.name) :
    script.name ∈ (scripts.map (·.name)).filter (· ≠ other.name) := by
  simp only [List.mem_filter, List.mem_map, decide_eq_true_eq]
  exact ⟨⟨script, listed, rfl⟩, Ne.symm different⟩

namespace KeptApart

variable {statement text : String} {scripts : List ScriptClass} {script other : ScriptClass}
  {constructor : Constructor} (statementBraceless : IsBraceless statement)
  (scanned : ∀ script ∈ scripts, script.HasWordNames) (apart : KeptApart statement scripts text)
  (listed : script ∈ scripts)

include scanned apart listed

theorem isClassName : IsClassName script.name.toList where
  isWordText := (scanned script listed).name
  notSpecifier := by
    intro same
    exact apart.notSpecifier script listed (String.toList_injective same)

theorem braceless_messages :
    ∀ message ∈ script.messages, IsBraceless message.name ∧ IsBraceless message.function :=
  fun message member => ⟨apart.braceless script listed message member,
    isBraceless_of_isWordText ((scanned script listed).functions message member)⟩

include statementBraceless

/-- The body that an update gives a constructor is balanced, and keeps to itself as well. -/
theorem updatedBody (found : find? script.name.toList text.toList = some constructor)
    {updated : List Char} (isUpdated : updated = renderBody (lineEnding text.toList)
      constructor.indent (bodyLines script.name statement script.messages constructor.body)) :
    Balanced '\x7b' '\x7d' updated ∧
      KeepsToItself statement ((scripts.map (·.name)).filter (· ≠ script.name)) updated := by
  have keeps := apart.bodies script listed constructor found
  have isEnding := isEnding_lineEnding text.toList
  have isIndent := isIndent_indent constructor
  have areNames : ∀ other ∈ (scripts.map (·.name)).filter (· ≠ script.name),
      IsWordText other.toList := by
    intro name member
    obtain ⟨other, otherListed, rfl⟩ := List.mem_map.mp (List.mem_of_mem_filter member)
    exact (scanned other otherListed).name
  subst isUpdated
  constructor
  · exact (balanced_updatedBody isEnding isIndent
      (isBraceless_of_isWordText (scanned script listed).name) statementBraceless
      (apart.braceless_messages scanned listed) constructor.body).mpr keeps.balanced
  · exact keeps.updatedBody isEnding isIndent (braceless_registrations
      (isBraceless_of_isWordText (scanned script listed).name) statementBraceless
      (apart.braceless_messages scanned listed)) areNames

theorem find?_inject_self (found : find? script.name.toList text.toList = some constructor) :
    ∃ updated, find? script.name.toList
        (inject script.name statement script.messages text).toList = some updated ∧
      updated.body = renderBody (lineEnding text.toList) constructor.indent
        (bodyLines script.name statement script.messages constructor.body) := by
  have isName := apart.isClassName scanned listed
  obtain ⟨before, front, foundAt⟩ := exists_foundAt isName found
  obtain ⟨balanced, _⟩ := apart.updatedBody statementBraceless scanned listed found rfl
  rw [toList_inject found, foundAt.replaceBody_eq isName found,
    (foundAt.exchange_self isName.isWordText balanced).find?_eq isName]
  exact ⟨_, rfl, rfl⟩

variable (otherListed : other ∈ scripts) (different : other.name ≠ script.name)

include otherListed different

theorem find?_inject_other (found : find? other.name.toList text.toList = some constructor) :
    ∃ left, find? other.name.toList
        (inject script.name statement script.messages text).toList = some left ∧
      left.body = constructor.body := by
  have isName := apart.isClassName scanned listed
  have otherIsName := apart.isClassName scanned otherListed
  cases ownFound : find? script.name.toList text.toList with
  | none =>
      rw [inject_of_find?_eq_none ownFound]
      exact ⟨constructor, found, rfl⟩
  | some own =>
      have otherName := mem_otherNames otherListed (Ne.symm different)
      obtain ⟨before, front, foundAt⟩ := exists_foundAt isName ownFound
      obtain ⟨_, _, otherFoundAt⟩ := exists_foundAt otherIsName found
      obtain ⟨balanced, keeps⟩ := apart.updatedBody statementBraceless scanned listed ownFound rfl
      have ownKeeps := apart.bodies script listed own ownFound
      have otherKeeps := apart.bodies other otherListed constructor found
      obtain ⟨_, _, _, foundAfter, same | holds⟩ := foundAt.exchange_other isName otherIsName
        otherFoundAt (fun same => different (String.toList_injective same).symm)
        (ownKeeps.free _ otherName) (keeps.free _ otherName) balanced
      · rw [toList_inject ownFound, foundAt.replaceBody_eq isName ownFound,
          foundAfter.find?_eq otherIsName]
        exact ⟨_, rfl, same⟩
      · -- Its body would hold the head of the constructor that is updated.
        exact (holds (otherKeeps.free _ (mem_otherNames listed different))).elim

theorem find?_inject_none (notFound : find? other.name.toList text.toList = none) :
    find? other.name.toList (inject script.name statement script.messages text).toList = none := by
  have isName := apart.isClassName scanned listed
  have otherIsName := apart.isClassName scanned otherListed
  cases ownFound : find? script.name.toList text.toList with
  | none => rwa [inject_of_find?_eq_none ownFound]
  | some own =>
      have otherName := mem_otherNames otherListed (Ne.symm different)
      obtain ⟨before, front, foundAt⟩ := exists_foundAt isName ownFound
      obtain ⟨balanced, keeps⟩ := apart.updatedBody statementBraceless scanned listed ownFound rfl
      have ownKeeps := apart.bodies script listed own ownFound
      rw [toList_inject ownFound, foundAt.replaceBody_eq isName ownFound]
      exact foundAt.find?_exchange_none isName otherIsName
        (fun same => different (String.toList_injective same).symm) (ownKeeps.free _ otherName)
        (keeps.free _ otherName) balanced notFound

omit otherListed different

theorem inject : KeptApart statement scripts
    (Injection.inject script.name statement script.messages text) := by
  refine ⟨apart.notSpecifier, apart.braceless, ?_⟩
  intro other otherListed updated found
  by_cases same : other.name = script.name
  · rw [same] at found ⊢
    cases ownFound : find? script.name.toList text.toList with
    | none =>
        rw [inject_of_find?_eq_none ownFound, ownFound] at found
        cases found
    | some own =>
        obtain ⟨_, foundAfter, body⟩ :=
          apart.find?_inject_self statementBraceless scanned listed ownFound
        obtain rfl := Option.some.inj (foundAfter.symm.trans found)
        exact (apart.updatedBody statementBraceless scanned listed ownFound body).2
  · cases before : find? other.name.toList text.toList with
    | none =>
        rw [apart.find?_inject_none statementBraceless scanned listed otherListed same before]
          at found
        cases found
    | some constructor =>
        obtain ⟨_, foundAfter, body⟩ :=
          apart.find?_inject_other statementBraceless scanned listed otherListed same before
        obtain rfl := Option.some.inj (foundAfter.symm.trans found)
        rw [body]
        exact apart.bodies other otherListed constructor before

theorem exists_find?_inject (otherListed : other ∈ scripts)
    (found : ∃ constructor, find? other.name.toList text.toList = some constructor) :
    ∃ constructor, find? other.name.toList
      (Injection.inject script.name statement script.messages text).toList = some constructor := by
  obtain ⟨constructor, before⟩ := found
  by_cases same : other.name = script.name
  · rw [same] at before ⊢
    obtain ⟨updated, after, _⟩ := apart.find?_inject_self statementBraceless scanned listed before
    exact ⟨updated, after⟩
  · obtain ⟨left, after, _⟩ :=
      apart.find?_inject_other statementBraceless scanned listed otherListed same before
    exact ⟨left, after⟩

end KeptApart

section

variable {statement text : String} {scripts : List ScriptClass} {script other : ScriptClass}
  (identifier : isIdentifier statement.toList = true)
  (scanned : ∀ script ∈ scripts, script.HasWordNames) (apart : KeptApart statement scripts text)
  (listed : script ∈ scripts)

include identifier scanned in
theorem areLines_of_hasWordNames (listed : script ∈ scripts)
    (oneLine : ∀ message ∈ script.messages, '\n' ∉ message.name.toList) :
    AreLines script.name statement script.messages :=
  areLines_of_oneLine identifier (scanned script listed).name fun message member =>
    ⟨oneLine message member,
      not_mem_of_test ((scanned script listed).functions message member).2 (by decide)⟩

include identifier scanned apart listed

theorem registers_inject (oneLine : ∀ message ∈ script.messages, '\n' ∉ message.name.toList)
    {constructor : Constructor}
    (found : find? script.name.toList text.toList = some constructor) :
    Registers statement script (inject script.name statement script.messages text) := by
  have notEmpty : statement ≠ "" := by
    rintro rfl
    cases identifier
  obtain ⟨updated, foundAfter, body⟩ := apart.find?_inject_self
    (isBraceless_of_isIdentifier identifier) scanned listed found
  refine ⟨updated, foundAfter, ?_⟩
  rw [body]
  exact registrationLines_updatedBody (isEnding_lineEnding _) (isIndent_indent _) notEmpty
    (areLines_of_hasWordNames identifier scanned listed oneLine) constructor.body

theorem Registers.inject (oneLine : ∀ message ∈ script.messages, '\n' ∉ message.name.toList)
    (otherListed : other ∈ scripts)
    (sameMessages : other.name = script.name → other.messages = script.messages)
    (registers : Registers statement script text) :
    Registers statement script (Injection.inject other.name statement other.messages text) := by
  obtain ⟨constructor, found, lines⟩ := registers
  by_cases same : other.name = script.name
  · rw [same, sameMessages same]
    exact registers_inject identifier scanned apart listed oneLine found
  · obtain ⟨left, foundAfter, body⟩ := apart.find?_inject_other
      (isBraceless_of_isIdentifier identifier) scanned otherListed listed (Ne.symm same) found
    exact ⟨left, foundAfter, by rw [body, lines]⟩

end

end Injection

end ScriptRegistrar
