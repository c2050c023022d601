import Mathlib.Data.List.Basic
import ScriptRegistrar.Injection
import ScriptRegistrar.Proofs.Text.Lines

/-!
# Updated bodies of constructors

An updated body has the lines that stay, indented anew, and one registration for each message.
Updated again with the same messages it has the same lines: those that stayed stay, and the
registrations go and come back.
-/

namespace ScriptRegistrar.Injection

open Text

/-- Whether a text is an indented line of a rendered body without its indentation: one line with
a blank at neither end. -/
structure IsLine (line : List Char) : Prop where
  oneLine : '\n' ∉ line
  trimmed : IsTrimmed line

/-- Whether a text written in front of a line ending is a line of its own and leaves the ending as
it is. -/
structure FitsLine (line : List Char) : Prop where
  oneLine : '\n' ∉ line
  noReturn : line.getLast? ≠ some '\r'

theorem IsLine.fitsLine {line : List Char} (isLine : IsLine line) : FitsLine line where
  oneLine := isLine.oneLine
  noReturn := by
    intro isReturn
    have unblank := isLine.trimmed.last
    rw [isReturn] at unblank
    exact absurd unblank (by decide)

/-- A line ending that injection writes. -/
def IsEnding (ending : List Char) : Prop :=
  ending = ['\n'] ∨ ending = ['\r', '\n']

/-- The indentation of a line. -/
structure IsIndent (indent : List Char) : Prop where
  oneLine : '\n' ∉ indent
  blank : ∀ character ∈ indent, isBlank character = true

theorem isIndent_nil : IsIndent [] :=
  ⟨by simp, by simp⟩

theorem isEnding_lineEnding (text : List Char) : IsEnding (lineEnding text) := by
  unfold lineEnding
  split
  · exact Or.inr rfl
  · exact Or.inl rfl

theorem IsEnding.shape {ending : List Char} (isEnding : IsEnding ending) :
    ∃ front, ending = front ++ ['\n'] ∧ '\n' ∉ front ∧
      ∀ character ∈ front, isBlank character = true := by
  rcases isEnding with rfl | rfl
  · exact ⟨[], rfl, by simp, by simp⟩
  · exact ⟨['\r'], rfl, by decide, List.forall_mem_singleton.mpr rfl⟩

/-- Whether a line stays. -/
def stays (statement : String) (line : List Char) : Bool :=
  !line.isEmpty && !contains statement.toList line

/-- The lines of a text without the blanks around them. -/
def trimmedLines (text : List Char) : List (List Char) :=
  (lines text).map trim

theorem keptLines_eq_filter (statement : String) (text : List Char) :
    keptLines statement text = (trimmedLines text).filter (stays statement) := rfl

@[simp] theorem trimmedLines_append (left right : List Char) :
    trimmedLines (left ++ '\n' :: right) = trimmedLines left ++ trimmedLines right := by
  simp [trimmedLines]

theorem trimmedLines_of_blank {text : List Char} (oneLine : '\n' ∉ text)
    (blank : ∀ character ∈ text, isBlank character = true) : trimmedLines text = [[]] := by
  have nothing : trim text = [] := by
    have trimmed := @trim_surrounded text [] [] ⟨rfl, rfl⟩ blank (by simp)
    simpa using trimmed
  rw [trimmedLines, lines_of_not_mem oneLine, List.map_singleton, nothing]

theorem mem_of_mem_trimmedLines {text line : List Char} (listed : line ∈ trimmedLines text)
    {character : Char} (member : character ∈ line) : character ∈ text := by
  obtain ⟨source, inText, rfl⟩ := List.mem_map.mp listed
  obtain ⟨_, before, behind, rfl, _⟩ := parts_of_mem_lines inText
  exact List.mem_append_right _ (List.mem_append_left _ (mem_of_mem_trim member))

theorem isLine_of_mem_keptLines {statement : String} {text line : List Char}
    (kept : line ∈ keptLines statement text) :
    IsLine line ∧ stays statement line = true ∧ ∃ source ∈ lines text, line = trim source := by
  obtain ⟨listed, staying⟩ := List.mem_filter.mp kept
  obtain ⟨source, inText, rfl⟩ := List.mem_map.mp listed
  obtain ⟨oneLine, _⟩ := parts_of_mem_lines inText
  exact ⟨⟨fun member => oneLine (mem_of_mem_trim member), isTrimmed_trim source⟩, staying, source,
    inText, rfl⟩

section

variable {ending indent : List Char} (isEnding : IsEnding ending) (isIndent : IsIndent indent)

/-- One line of a rendered body. -/
def renderLine (ending indent line : List Char) : List Char :=
  indent ++ "    ".toList ++ line ++ ending

theorem renderBody_eq (ending indent : List Char) (lines : List (List Char)) :
    renderBody ending indent lines = ending ++ (lines.flatMap (renderLine ending indent) ++ indent) := by
  rw [renderBody, List.append_assoc, List.flatMap_def]
  rfl

include isIndent in
theorem blank_margin : (∀ character ∈ indent ++ "    ".toList, isBlank character = true) ∧
    '\n' ∉ indent ++ "    ".toList := by
  have spaces : ∀ space ∈ "    ".toList, isBlank space = true ∧ space ≠ '\n' :=
    List.forall_iff_forall_mem.mp (by decide)
  constructor
  · intro character member
    rcases List.mem_append.mp member with inIndent | space
    · exact isIndent.blank character inIndent
    · exact (spaces character space).1
  · intro member
    rcases List.mem_append.mp member with inIndent | space
    · exact isIndent.oneLine inIndent
    · exact (spaces _ space).2 rfl

include isEnding isIndent

theorem trimmedLines_renderLine {line : List Char} (isLine : IsLine line) (rest : List Char) :
    trimmedLines (renderLine ending indent line ++ rest) = line :: trimmedLines rest := by
  obtain ⟨front, rfl, noBreak, blank⟩ := isEnding.shape
  obtain ⟨margin, marginLine⟩ := blank_margin isIndent
  have shape : renderLine (front ++ ['\n']) indent line ++ rest =
      (indent ++ "    ".toList ++ (line ++ front)) ++ '\n' :: rest := by
    simp [renderLine]
  have single : '\n' ∉ indent ++ "    ".toList ++ (line ++ front) := by
    simp only [List.mem_append, not_or] at marginLine ⊢
    exact ⟨marginLine, isLine.oneLine, noBreak⟩
  rw [shape, trimmedLines_append, trimmedLines, lines_of_not_mem single, List.map_singleton,
    trim_surrounded isLine.trimmed margin blank]
  rfl

/-- The lines at the start of a rendered body are those that it was rendered from. -/
theorem trimmedLines_renderLines {lines : List (List Char)}
    (areLines : ∀ line ∈ lines, IsLine line) (rest : List Char) :
    trimmedLines (ending ++ (lines.flatMap (renderLine ending indent) ++ rest)) =
      [] :: (lines ++ trimmedLines rest) := by
  have inner : trimmedLines (lines.flatMap (renderLine ending indent) ++ rest) =
      lines ++ trimmedLines rest := by
    induction lines with
    | nil => rfl
    | cons line others induction =>
        obtain ⟨isLine, othersAre⟩ := List.forall_mem_cons.mp areLines
        rw [List.flatMap_cons, List.append_assoc,
          trimmedLines_renderLine isEnding isIndent isLine, induction othersAre]
        rfl
  obtain ⟨front, rfl, noBreak, blank⟩ := isEnding.shape
  simp [trimmedLines_of_blank noBreak blank, inner]

theorem trimmedLines_renderBody {lines : List (List Char)}
    (areLines : ∀ line ∈ lines, IsLine line) :
    trimmedLines (renderBody ending indent lines) = [] :: (lines ++ [[]]) := by
  rw [renderBody_eq, trimmedLines_renderLines isEnding isIndent areLines,
    trimmedLines_of_blank isIndent.oneLine isIndent.blank]

theorem keptLines_renderBody (statement : String) {lines : List (List Char)}
    (areLines : ∀ line ∈ lines, IsLine line) :
    keptLines statement (renderBody ending indent lines) = lines.filter (stays statement) := by
  rw [keptLines_eq_filter, trimmedLines_renderBody isEnding isIndent areLines]
  simp [stays]

end

theorem registration_shape (className statement : String) (message : Message) :
    registration className statement message = statement.toList ++ '(' :: '"' ::
      (message.name.toList ++ '"' :: ',' :: ' ' :: '&' :: (className.toList ++ ':' :: ':' ::
        (message.function.toList ++ [')', ';']))) := by
  simp [registration]

/-- A registration has the characters of its names and its signs. -/
theorem mem_registration {className statement : String} {message : Message} {character : Char}
    (found : character ∈ registration className statement message) :
    character ∈ statement.toList ∨ character ∈ message.name.toList ∨
      character ∈ className.toList ∨ character ∈ message.function.toList ∨
        character ∈ ['(', '"', ',', ' ', '&', ':', ')', ';'] := by
  rw [registration_shape] at found
  simp only [List.mem_append, List.mem_cons, List.not_mem_nil, or_false] at found ⊢
  grind

@[simp] theorem getLast?_registration (className statement : String) (message : Message) :
    (registration className statement message).getLast? = some ';' := by
  rw [registration, String.toList_append, List.getLast?_append]
  rfl

theorem isTrimmed_registration {className statement : String}
    (identifier : isIdentifier statement.toList = true) (message : Message) :
    IsTrimmed (registration className statement message) := by
  constructor
  · obtain ⟨first, others, shape, start, _⟩ := isIdentifier_iff.mp identifier
    rw [registration_shape, shape]
    exact isBlank_of_isIdentifierChar (isIdentifierChar_of_isIdentifierStart start)
  · rw [getLast?_registration]
    decide

/-- Whether the registrations of some messages are one line each. -/
def AreLines (className statement : String) (messages : List Message) : Prop :=
  ∀ message ∈ keepFirst (·.function) messages, IsLine (registration className statement message)

/-- What holds of every line that stays and of the registrations holds of all lines of an updated
body. -/
theorem forall_mem_bodyLines {holds : List Char → Prop} {className statement : String}
    {messages : List Message} (stayed : ∀ {line}, IsLine line → holds line)
    (registered : ∀ message ∈ keepFirst (·.function) messages,
      holds (registration className statement message)) (body : List Char) :
    ∀ line ∈ bodyLines className statement messages body, holds line := by
  intro line member
  rcases List.mem_append.mp member with kept | listed
  · exact stayed (isLine_of_mem_keptLines kept).1
  · obtain ⟨message, inMessages, rfl⟩ := List.mem_map.mp listed
    exact registered message inMessages

theorem AreLines.fitLines {className statement : String} {messages : List Message}
    (areLines : AreLines className statement messages) :
    ∀ message ∈ keepFirst (·.function) messages,
      FitsLine (registration className statement message) :=
  fun message kept => (areLines message kept).fitsLine

theorem isLine_of_mem_bodyLines {className statement : String} {messages : List Message}
    (areLines : AreLines className statement messages) (body : List Char) :
    ∀ line ∈ bodyLines className statement messages body, IsLine line :=
  forall_mem_bodyLines id areLines body

/-- Of several updates the last one counts: the registrations of the one before go, and the lines
that stayed stay. -/
theorem bodyLines_renderBody {ending indent : List Char} (isEnding : IsEnding ending)
    (isIndent : IsIndent indent) {className statement : String} {messages : List Message}
    (areLines : AreLines className statement messages) (later : List Message)
    (body : List Char) :
    bodyLines className statement later
        (renderBody ending indent (bodyLines className statement messages body)) =
      bodyLines className statement later body := by
  have kept : (keptLines statement body).filter (stays statement) = keptLines statement body :=
    List.filter_eq_self.mpr fun line member => (isLine_of_mem_keptLines member).2.1
  have dropped : ((keepFirst (·.function) messages).map
      (registration className statement)).filter (stays statement) = [] := by
    apply List.filter_eq_nil_iff.mpr
    intro line member
    obtain ⟨message, _, rfl⟩ := List.mem_map.mp member
    have holds : contains statement.toList (registration className statement message) = true :=
      (contains_iff _ _).mpr ⟨[], _, by simp [registration]; rfl⟩
    simp [stays, holds]
  rw [bodyLines, keptLines_renderBody isEnding isIndent statement
    (isLine_of_mem_bodyLines areLines body), bodyLines, List.filter_append, kept, dropped,
    List.append_nil]
  rfl

section

variable {ending indent : List Char} (isEnding : IsEnding ending) (isIndent : IsIndent indent)

include isEnding in
theorem blank_ending : ∀ character ∈ ending, isBlank character = true := by
  rcases isEnding with rfl | rfl <;> exact List.all_eq_true.mp (by decide)

include isEnding isIndent

theorem wordsIn_renderLine (line rest : List Char) :
    wordsIn (renderLine ending indent line ++ rest) = wordsIn line ++ wordsIn rest := by
  have ended : NotInWord (renderLine ending indent line).reverse := by
    obtain ⟨front, rfl, _⟩ := isEnding.shape
    simp only [renderLine, List.reverse_append, List.append_assoc]
    exact notInWord_cons (by decide)
  rw [wordsIn_append_of_ended _ ended, renderLine, List.append_assoc,
    wordsIn_surrounded (blank_margin isIndent).1 (blank_ending isEnding)]

/-- The words of a rendered body are those of its lines. -/
theorem mem_words_renderBody {lines : List (List Char)} {word : List Char}
    (found : word ∈ wordsIn (renderBody ending indent lines)) :
    ∃ line ∈ lines, word ∈ wordsIn line := by
  rw [renderBody_eq, wordsIn_append_of_ended _ (notInWord_of_blanks (blank_ending isEnding)),
    wordsIn_of_blanks (blank_ending isEnding), List.nil_append] at found
  induction lines with
  | nil =>
      rw [List.flatMap_nil, List.nil_append, wordsIn_of_blanks isIndent.blank] at found
      cases found
  | cons line others induction =>
      rw [List.flatMap_cons, List.append_assoc,
        wordsIn_renderLine isEnding isIndent] at found
      rcases List.mem_append.mp found with here | behind
      · exact ⟨line, List.mem_cons_self, here⟩
      · obtain ⟨other, listed, inLine⟩ := induction behind
        exact ⟨other, List.mem_cons_of_mem line listed, inLine⟩

/-- The characters of a rendered body that are no blanks are those of its lines. -/
theorem mem_renderBody {lines : List (List Char)} {character : Char}
    (found : character ∈ renderBody ending indent lines) :
    isBlank character = true ∨ ∃ line ∈ lines, character ∈ line := by
  rw [renderBody_eq, List.mem_append, List.mem_append] at found
  rcases found with inEnding | inLines | inIndent
  · exact Or.inl (blank_ending isEnding character inEnding)
  · obtain ⟨line, listed, inLine⟩ := List.mem_flatMap.mp inLines
    rw [renderLine, List.mem_append, List.mem_append] at inLine
    rcases inLine with (margin | here) | last
    · exact Or.inl ((blank_margin isIndent).1 character (List.mem_append.mpr
        (List.mem_append.mp margin)))
    · exact Or.inr ⟨line, listed, here⟩
    · exact Or.inl (blank_ending isEnding character last)
  · exact Or.inl (isIndent.blank character inIndent)

end

theorem not_contains_pair_of_not_mem {first second : Char} {text : List Char}
    (absent : second ∉ text) : contains [first, second] text = false := by
  cases found : contains [first, second] text with
  | false => rfl
  | true =>
      obtain ⟨before, behind, rfl⟩ := (contains_iff _ _).mp found
      exact (absent (by simp)).elim

theorem not_contains_pair_append {first second : Char} {left right : List Char}
    (noLeft : contains [first, second] left = false)
    (noRight : contains [first, second] right = false) (apart : left.getLast? ≠ some first) :
    contains [first, second] (left ++ right) = false := by
  rw [Bool.eq_false_iff, ne_eq, contains_pair_append, noLeft, noRight]
  rintro (found | found | ⟨meets, _⟩)
  · cases found
  · cases found
  · exact apart meets

/-- A body rendered with plain line endings has no Windows line. -/
theorem not_contains_renderBody {indent : List Char} (isIndent : IsIndent indent)
    {lines : List (List Char)} (fitLines : ∀ line ∈ lines, FitsLine line) :
    contains ['\r', '\n'] (renderBody ['\n'] indent lines) = false := by
  have plain : contains ['\r', '\n'] ['\n'] = false := rfl
  have inLine : ∀ {line : List Char}, FitsLine line →
      contains ['\r', '\n'] (renderLine ['\n'] indent line) = false := by
    intro line fits
    have marginLine := (blank_margin isIndent).2
    have single : '\n' ∉ indent ++ "    ".toList ++ line :=
      fun member => (List.mem_append.mp member).elim marginLine fits.oneLine
    refine not_contains_pair_append (not_contains_pair_of_not_mem single) plain ?_
    rcases List.eq_nil_or_concat line with rfl | ⟨front, final, rfl⟩
    · simp
    · have noReturn := fits.noReturn
      rw [List.concat_eq_append, List.getLast?_concat] at noReturn
      rwa [List.concat_eq_append, ← List.append_assoc, List.getLast?_concat]
  have inLines : contains ['\r', '\n'] (lines.flatMap (renderLine ['\n'] indent) ++ indent) =
      false := by
    induction lines with
    | nil => exact not_contains_pair_of_not_mem isIndent.oneLine
    | cons line others induction =>
        obtain ⟨fits, othersFit⟩ := List.forall_mem_cons.mp fitLines
        rw [List.flatMap_cons, List.append_assoc]
        refine not_contains_pair_append (inLine fits) (induction othersFit) ?_
        rw [renderLine, List.getLast?_concat]
        decide
  rw [renderBody_eq]
  exact not_contains_pair_append plain inLines (by decide)

theorem contains_renderBody {ending indent : List Char} (isEnding : IsEnding ending)
    (isIndent : IsIndent indent) {lines : List (List Char)}
    (fitLines : ∀ line ∈ lines, FitsLine line) :
    contains ['\r', '\n'] (renderBody ending indent lines) = true ↔ ending = ['\r', '\n'] := by
  rcases isEnding with rfl | rfl
  · simp [not_contains_renderBody isIndent fitLines]
  · simp only [iff_true]
    exact (contains_iff _ _).mpr ⟨[], _, by rw [renderBody_eq]; rfl⟩

end ScriptRegistrar.Injection
