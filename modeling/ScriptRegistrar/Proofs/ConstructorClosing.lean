import ScriptRegistrar.Proofs.BracketDepth
import ScriptRegistrar.Proofs.Crediting
import ScriptRegistrar.Proofs.InjectionSite

/-!
# Where an updated constructor closes

An update drops whole lines of a constructor's body, and a dropped line takes its braces with it.
The brace behind the new body still closes the constructor exactly if the braces of the lines that
stay are balanced; they are if every line that goes is balanced by itself.  Indentation and
registrations have no brace.
-/

namespace ScriptRegistrar

open Text Text.Cursor Bracketed

/-- Whether a character is a brace. -/
def isBrace (character : Char) : Bool :=
  character = '\x7b' || character = '\x7d'

/-- The byte offset of the opening brace of a constructor. -/
def Constructor.opening (constructor : Constructor) : Nat :=
  constructor.opened.offset - 1

namespace Text

theorem filter_eq_nil_of_blanks {test : Char → Bool} (noBlank : ∀ character,
    isBlank character = true → test character = false) {blanks : List Char}
    (blank : ∀ character ∈ blanks, isBlank character = true) : blanks.filter test = [] := by
  apply List.filter_eq_nil_iff.mpr
  intro character member
  simp [noBlank character (blank character member)]

theorem filter_trim {test : Char → Bool} (noBlank : ∀ character, isBlank character = true →
    test character = false) (text : List Char) : (trim text).filter test = text.filter test := by
  obtain ⟨before, behind, shape, blankBefore, blankBehind⟩ := parts_of_trim text
  have whole := congrArg (List.filter test) shape
  rw [List.filter_append, List.filter_append, filter_eq_nil_of_blanks noBlank blankBefore,
    filter_eq_nil_of_blanks noBlank blankBehind, List.nil_append, List.append_nil] at whole
  exact whole.symm

theorem filter_flatten_trimmed {test : Char → Bool} (noBlank : ∀ character,
    isBlank character = true → test character = false) (text : List Char) :
    ((lines text).map trim).flatten.filter test = text.filter test := by
  induction text using lines_induction with
  | last text oneLine =>
      rw [lines_of_not_mem oneLine]
      simpa using filter_trim noBlank text
  | line first rest noBreak induction =>
      have feed : test '\n' = false := noBlank '\n' (by decide)
      rw [lines_append, lines_of_not_mem noBreak, List.map_append, List.flatten_append,
        List.filter_append, induction, List.filter_append, List.filter_cons_of_neg (by simp [feed])]
      simpa using filter_trim noBlank first

theorem eq_of_byteLength_eq {left right first second : List Char}
    (same : left ++ first = right ++ second) (length : byteLength left = byteLength right) :
    left = right := by
  have nothing : ∀ {between : List Char}, byteLength between = 0 → between = [] := by
    intro between empty
    cases between with
    | nil => rfl
    | cons next rest =>
        have positive := Char.utf8Size_pos next
        rw [byteLength] at empty
        omega
  rcases List.append_eq_append_iff.mp same with ⟨between, rfl, _⟩ | ⟨between, rfl, _⟩
  · rw [byteLength_append] at length
    rw [nothing (show byteLength between = 0 by omega), List.append_nil]
  · rw [byteLength_append] at length
    rw [nothing (show byteLength between = 0 by omega), List.append_nil]

end Text

theorem not_isBrace {test : Char → Bool} (opening : test '\x7b' = false)
    (closing : test '\x7d' = false) {character : Char} (holds : test character = true) :
    isBrace character = false := by
  rw [isBrace, Bool.or_eq_false_iff, decide_eq_false_iff_not, decide_eq_false_iff_not]
  constructor
  · rintro rfl
    rw [opening] at holds
    exact Bool.noConfusion holds
  · rintro rfl
    rw [closing] at holds
    exact Bool.noConfusion holds

theorem not_isBrace_of_isBlank (character : Char) (blank : isBlank character = true) :
    isBrace character = false :=
  not_isBrace (by decide) (by decide) blank

theorem ClassBody.matchingBrace?_eq_some_iff (before inside behind : List Char) :
    matchingBrace? (String.ofList (before ++ '\x7b' :: (inside ++ '\x7d' :: behind)))
        (byteLength before) = some (byteLength before + 1 + byteLength inside) ↔
      Balanced '\x7b' '\x7d' inside := by
  have place := advance?_append [] before ('\x7b' :: (inside ++ '\x7d' :: behind))
  rw [matchingBrace?, closingOffset?, String.toList_ofList, Cursor.atOffset?, place]
  simp only [Option.bind_eq_bind, Option.bind_some, if_true, utf8Size_openingBrace,
    Option.bind_eq_some_iff,
    Option.some.injEq]
  constructor
  · rintro ⟨⟨closed, rest⟩, closes, length⟩
    have whole := append_of_close? closes
    have same : inside = closed := eq_of_byteLength_eq whole (Nat.add_left_cancel length).symm
    subst same
    exact balanced_of_close? (by decide) closes
  · intro balanced
    exact ⟨(inside, behind), close?_of_balanced (by decide) balanced behind, rfl⟩

namespace Injection

/-- Whether no brace is in a name. -/
def IsBraceless (name : String) : Prop :=
  ∀ character ∈ name.toList, isBrace character = false

variable {className statement : String} {messages : List Message}

theorem isBraceless_of_isIdentifier {name : String} (identifier : isIdentifier name.toList = true) :
    IsBraceless name :=
  fun _ member => not_isBrace (by decide) (by decide) (isIdentifierChar_of_mem identifier member)

theorem filter_registration {message : Message} (classBraceless : IsBraceless className)
    (statementBraceless : IsBraceless statement) (nameBraceless : IsBraceless message.name)
    (functionBraceless : IsBraceless message.function) :
    (registration className statement message).filter isBrace = [] := by
  have signs : ∀ sign ∈ ['(', '"', ',', ' ', '&', ':', ')', ';'], isBrace sign = false :=
    List.forall_iff_forall_mem.mp (by decide)
  apply List.filter_eq_nil_iff.mpr
  intro character member
  rw [Bool.not_eq_true]
  rcases mem_registration member with inStatement | inName | inClass | inFunction | isSign
  · exact statementBraceless character inStatement
  · exact nameBraceless character inName
  · exact classBraceless character inClass
  · exact functionBraceless character inFunction
  · exact signs character isSign

theorem braceless_registrations (classBraceless : IsBraceless className)
    (statementBraceless : IsBraceless statement)
    (braceless : ∀ message ∈ messages, IsBraceless message.name ∧ IsBraceless message.function) :
    ∀ line ∈ (keepFirst (·.function) messages).map (registration className statement),
      ∀ character ∈ line, isBrace character = false := by
  intro line listed character inLine
  obtain ⟨message, kept, rfl⟩ := List.mem_map.mp listed
  obtain ⟨name, function⟩ := braceless message (mem_of_mem_keepFirst kept)
  have nothing := filter_registration classBraceless statementBraceless name function
  simpa using List.filter_eq_nil_iff.mp nothing character inLine

/-- The characters of a rendered body that are no blanks are those of its lines, in order. -/
theorem filter_renderBody {test : Char → Bool} (noBlank : ∀ character,
    isBlank character = true → test character = false) {ending indent : List Char}
    (isEnding : IsEnding ending) (isIndent : IsIndent indent) (lines : List (List Char)) :
    (renderBody ending indent lines).filter test = lines.flatten.filter test := by
  have noEnding := filter_eq_nil_of_blanks noBlank (blank_ending isEnding)
  have noIndent := filter_eq_nil_of_blanks noBlank isIndent.blank
  have noMargin := filter_eq_nil_of_blanks noBlank (blank_margin isIndent).1
  rw [renderBody_eq, List.filter_append, noEnding, List.filter_append, noIndent, List.nil_append,
    List.append_nil]
  induction lines with
  | nil => rfl
  | cons line others induction =>
      rw [List.flatMap_cons, List.filter_append, induction, List.flatten_cons, List.filter_append,
        renderLine, List.filter_append, List.filter_append, noMargin, noEnding, List.nil_append,
        List.append_nil]

theorem filter_updatedBody {ending indent : List Char} (isEnding : IsEnding ending)
    (isIndent : IsIndent indent) (classBraceless : IsBraceless className)
    (statementBraceless : IsBraceless statement)
    (braceless : ∀ message ∈ messages, IsBraceless message.name ∧ IsBraceless message.function)
    (body : List Char) :
    (renderBody ending indent (bodyLines className statement messages body)).filter isBrace =
      (keptLines statement body).flatten.filter isBrace := by
  have registered : ((keepFirst (·.function) messages).map
      (registration className statement)).flatten.filter isBrace = [] := by
    apply List.filter_eq_nil_iff.mpr
    intro character member
    obtain ⟨line, listed, inLine⟩ := List.mem_flatten.mp member
    simp [braceless_registrations classBraceless statementBraceless braceless line listed character
      inLine]
  rw [filter_renderBody not_isBrace_of_isBlank isEnding isIndent, bodyLines, List.flatten_append,
    List.filter_append, registered, List.append_nil]

theorem balanced_updatedBody {ending indent : List Char} (isEnding : IsEnding ending)
    (isIndent : IsIndent indent) (classBraceless : IsBraceless className)
    (statementBraceless : IsBraceless statement)
    (braceless : ∀ message ∈ messages, IsBraceless message.name ∧ IsBraceless message.function)
    (body : List Char) :
    Balanced '\x7b' '\x7d'
        (renderBody ending indent (bodyLines className statement messages body)) ↔
      Balanced '\x7b' '\x7d' (keptLines statement body).flatten :=
  balanced_congr (by decide) isBrace (by decide) (by decide)
    (filter_updatedBody isEnding isIndent classBraceless statementBraceless braceless body)

theorem openBehind?_keptLines {listed : List (List Char)} {keeps : List Char → Bool}
    (balanced : ∀ line ∈ listed, keeps line = false → Balanced '\x7b' '\x7d' line) (depth : Nat) :
    openBehind? '\x7b' '\x7d' depth (listed.filter keeps).flatten =
      openBehind? '\x7b' '\x7d' depth listed.flatten := by
  induction listed generalizing depth with
  | nil => rfl
  | cons line others induction =>
      obtain ⟨here, behind⟩ := List.forall_mem_cons.mp balanced
      rw [List.flatten_cons, openBehind?_append]
      cases kept : keeps line with
      | true =>
          rw [List.filter_cons_of_pos kept, List.flatten_cons, openBehind?_append]
          simp only [induction behind]
      | false =>
          rw [List.filter_cons_of_neg (by simp [kept]), induction behind,
            openBehind?_of_balanced (by decide) (here kept), Option.bind_some]

/-- The lines that stay are balanced if every line that holds the statement is. -/
theorem balanced_keptLines {body : List Char} (bodyBalanced : Balanced '\x7b' '\x7d' body)
    (balanced : ∀ line ∈ (lines body).map trim, contains statement.toList line = true →
      Balanced '\x7b' '\x7d' line) :
    Balanced '\x7b' '\x7d' (keptLines statement body).flatten := by
  have whole := (balanced_congr (by decide) isBrace (by decide) (by decide)
    (filter_flatten_trimmed not_isBrace_of_isBlank body)).mpr bodyBalanced
  rw [balanced_iff (by decide)] at whole ⊢
  rw [keptLines, openBehind?_keptLines, whole]
  intro line listed goes
  cases holds : contains statement.toList line with
  | true => exact balanced line listed holds
  | false =>
      have empty : line = [] := by simpa [holds] using goes
      exact empty ▸ Balanced.nil

/-- The brace that closed a constructor still closes it after an update, exactly if the lines that
stay are balanced; they are if every line that holds the statement is. -/
theorem matchingBrace?_inject? {text updated : String}
    (classBraceless : IsBraceless className) (statementBraceless : IsBraceless statement)
    (braceless : ∀ message ∈ messages, IsBraceless message.name ∧ IsBraceless message.function)
    (injected : inject? className statement messages text = some updated) :
    ∃ constructor, Constructor.find? className.toList text.toList = some constructor ∧
      ClassBody.matchingBrace? text constructor.opening = some constructor.closing ∧
      (ClassBody.matchingBrace? updated constructor.opening =
          some (byteLength updated.toList - (byteLength text.toList - constructor.closing)) ↔
        Balanced '\x7b' '\x7d' (keptLines statement constructor.body).flatten) ∧
      ((∀ line ∈ (lines constructor.body).map trim, contains statement.toList line = true →
          Balanced '\x7b' '\x7d' line) →
        Balanced '\x7b' '\x7d' (keptLines statement constructor.body).flatten) := by
  simp only [inject?, update?, Option.map_eq_some_iff] at injected
  obtain ⟨_, ⟨constructor, found, rfl⟩, rfl⟩ := injected
  have stands := Constructor.standsIn_of_find? found
  obtain ⟨before, passed, _⟩ := stands.opened
  have opening : constructor.opening = byteLength before.reverse := by
    simp [Constructor.opening, Cursor.offset, passed]
  have opened : constructor.opened.offset = byteLength before.reverse + 1 := by
    simp [Cursor.offset, passed, Nat.add_comm]
  have shape : ∀ body : List Char, constructor.opened.passed.reverse ++
      (body ++ '\x7d' :: constructor.behind) =
        before.reverse ++ '\x7b' :: (body ++ '\x7d' :: constructor.behind) := by
    intro body
    simp [passed]
  have whole := stands.parts.trans (shape constructor.body)
  have bodyBalanced : Balanced '\x7b' '\x7d' constructor.body :=
    balanced_of_close? (by decide) stands.closes
  refine ⟨constructor, found, ?_, ?_, balanced_keptLines bodyBalanced⟩
  · rw [opening, Constructor.closing, opened, ← String.ofList_toList (s := text), whole]
    exact (ClassBody.matchingBrace?_eq_some_iff _ _ _).mpr bodyBalanced
  · generalize newBody : renderBody (lineEnding text.toList) constructor.indent
      (bodyLines className statement messages constructor.body) = body
    -- The brace behind the body stays as far from the end of the text as it was.
    have closing : byteLength (replaceBody constructor body) -
        (byteLength text.toList - constructor.closing) =
          byteLength before.reverse + 1 + byteLength body := by
      rw [replaceBody, List.append_assoc, shape, Constructor.closing, opened, whole]
      simp only [byteLength_append, byteLength, utf8Size_openingBrace]
      omega
    rw [opening, String.toList_ofList, closing, replaceBody, List.append_assoc, shape,
      ClassBody.matchingBrace?_eq_some_iff, ← newBody]
    exact balanced_updatedBody (isEnding_lineEnding _) (Constructor.isIndent_indent constructor)
      classBraceless statementBraceless braceless constructor.body

theorem matchingBrace?_inject?_door :
    let text := "Door() \x7b\n  if (locked) \x7b unlock(); \x7d\n" ++
      "  RegisterMessage(\"Shut\", &Door::Shut);\n\x7d\n"
    ∃ updated constructor, Constructor.find? "Door".toList text.toList = some constructor ∧
      inject? "Door" "RegisterMessage" [⟨"Open", "Open", [], .marker⟩] text = some updated ∧
      ClassBody.matchingBrace? updated constructor.opening =
        some (byteLength updated.toList - (byteLength text.toList - constructor.closing)) := by
  intro text
  obtain ⟨updated, injected⟩ : ∃ updated, inject? "Door" "RegisterMessage"
      [⟨"Open", "Open", [], .marker⟩] text = some updated :=
    Option.isSome_iff_exists.mp (by decide +kernel)
  have isOpen : IsBraceless "Open" := isBraceless_of_isIdentifier (by decide)
  obtain ⟨constructor, found, _, closes, staying⟩ := matchingBrace?_inject?
    (isBraceless_of_isIdentifier (by decide)) (isBraceless_of_isIdentifier (by decide))
    (List.forall_mem_singleton.mpr ⟨isOpen, isOpen⟩) injected
  refine ⟨updated, constructor, found, injected, closes.mpr (staying ?_)⟩
  have stale : (Constructor.find? "Door".toList text.toList).all (fun constructor =>
      ((lines constructor.body).map trim).all fun line =>
        !contains "RegisterMessage".toList line || line.all (!isBrace ·)) = true := by
    decide +kernel
  rw [found, Option.all_some, List.all_eq_true] at stale
  intro line listed holds
  have noBrace : ∀ character ∈ line, isBrace character = false := by
    have quiet := stale line listed
    rw [holds, Bool.not_true, Bool.false_or, List.all_eq_true] at quiet
    simpa using quiet
  exact .of_not_mem (fun member => absurd (noBrace _ member) (by decide))
    (fun member => absurd (noBrace _ member) (by decide))

/-- A line that opens a block and registers a message takes the brace of the block with it. -/
theorem matchingBrace?_inject?_moves :
    ¬ ∀ (className statement : String) (messages : List Message) (text updated : String)
      (constructor : Constructor), isIdentifier className.toList = true →
      isIdentifier statement.toList = true →
      (∀ message ∈ messages, IsBraceless message.name ∧ IsBraceless message.function) →
      inject? className statement messages text = some updated →
      Constructor.find? className.toList text.toList = some constructor →
      ClassBody.matchingBrace? updated constructor.opening =
        some (byteLength updated.toList - (byteLength text.toList - constructor.closing)) := by
  intro claimed
  have moves : ∃ text, (inject? "Door" "RegisterMessage" [⟨"Open", "Open", [], .marker⟩] text).any
      (fun updated => (Constructor.find? "Door".toList text.toList).any fun constructor =>
        !decide (ClassBody.matchingBrace? updated constructor.opening =
          some (byteLength updated.toList -
            (byteLength text.toList - constructor.closing)))) = true := by
    refine ⟨"class Door : public ScriptBehaviour \x7b\n  Door() \x7b\n" ++
      "    if (enabled) \x7b RegisterMessage(\"Open\", &Door::Open);\n    \x7d\n" ++
      "    lock();\n  \x7d\n\x7d;\n", ?_⟩
    decide +kernel
  obtain ⟨text, moved⟩ := moves
  obtain ⟨updated, injected, elsewhere⟩ := Option.any_eq_true _ _ |>.mp moved
  obtain ⟨constructor, found, moved⟩ := Option.any_eq_true _ _ |>.mp elsewhere
  have isOpen : IsBraceless "Open" := isBraceless_of_isIdentifier (by decide)
  have stays := claimed "Door" "RegisterMessage" _ text updated constructor (by decide) (by decide)
    (List.forall_mem_singleton.mpr ⟨isOpen, isOpen⟩) injected found
  simp [stays] at moved

end Injection

end ScriptRegistrar
