import ScriptRegistrar.Proofs.ConstructorRecognition
import ScriptRegistrar.Proofs.InjectedBody
import ScriptRegistrar.Proofs.Text.Occurrences

/-!
# Updating a constructor in its text

A constructor that is found stands in the text: what is before its body, the body, its closing
brace and what follows are the whole text, and an update changes the body alone.  It keeps the
line ending of the text as well, so that a second update writes the same lines.
-/

namespace ScriptRegistrar

open Text Text.Cursor Text.Recogniser

namespace Constructor

/-- Whether a constructor of a class stands in a text. -/
structure StandsIn (className text : List Char) (constructor : Constructor) : Prop where
  start : Across (Cursor.start text) constructor.start.passed.reverse constructor.start
  head : readHead? className constructor.start =
    some ((constructor.start, constructor.opened), constructor.opened)
  notDestructor : isDestructor constructor.start = false
  closes : Bracketed.braces? constructor.opened.ahead =
    some (constructor.body, constructor.behind)

theorem goesForward_readHead? (className : List Char) : GoesForward (readHead? className) := by
  rintro cursor ⟨start, opened⟩ next read
  obtain ⟨_, _, _, blanks, inside, across, _⟩ := across_of_readHead? read
  exact ⟨_, across⟩

theorem standsIn_of_find? {className text : List Char} {constructor : Constructor}
    (found : find? className text = some constructor) : StandsIn className text constructor := by
  simp only [find?, Option.bind_eq_bind, Option.bind_eq_some_iff] at found
  obtain ⟨⟨start, opened⟩, first, ⟨body, behind⟩, closes, equality⟩ := found
  cases equality
  obtain ⟨before, place, next, across, read⟩ := exists_of_mem_occurrences
    (goesForward_readHead? className) (List.mem_of_find?_eq_some first)
  obtain ⟨rfl, rfl, _⟩ := across_of_readHead? read
  have passed : before = start.passed.reverse := by
    have reversed := across.2
    simp only [Cursor.start, List.append_nil] at reversed
    rw [reversed, List.reverse_reverse]
  have notDestructor := List.find?_some first
  simp only [Bool.not_eq_true'] at notDestructor
  exact ⟨passed ▸ across, read, notDestructor, closes⟩

theorem isIndent_indent (constructor : Constructor) : Injection.IsIndent constructor.indent := by
  constructor
  · intro member
    have inLine := List.mem_reverse.mp ((List.takeWhile_prefix isBlank).subset member)
    have passes := List.all_eq_true.mp List.all_takeWhile _ inLine
    simp at passes
  · exact fun _ member => List.all_eq_true.mp List.all_takeWhile _ member

namespace StandsIn

variable {className text : List Char} {constructor : Constructor}
  (stands : StandsIn className text constructor)

include stands

theorem opened : ∃ before, constructor.opened.passed = '\x7b' :: before ∧
    text = constructor.opened.passed.reverse ++ constructor.opened.ahead := by
  obtain ⟨_, _, _, blanks, inside, across, _⟩ := across_of_readHead? stands.head
  have whole := stands.start.trans across
  refine ⟨inside.reverse ++ '(' :: (blanks.reverse ++ (className.reverse ++
    constructor.start.passed)), ?_, ?_⟩
  · rw [across.2]
    simp
  · have ahead := whole.1
    have passed := whole.2
    simp only [Cursor.start, List.append_nil] at ahead passed
    rw [passed, List.reverse_reverse, ← ahead]

theorem parts : text =
    constructor.opened.passed.reverse ++ (constructor.body ++ '\x7d' :: constructor.behind) := by
  obtain ⟨_, _, whole⟩ := stands.opened
  rw [← Bracketed.append_of_close? stands.closes]
  exact whole

/-- A rendered body does not change the line ending of its text. -/
theorem lineEnding_replaceBody {lines : List (List Char)}
    (fitLines : ∀ line ∈ lines, Injection.FitsLine line) :
    Injection.lineEnding (Injection.replaceBody constructor
        (Injection.renderBody (Injection.lineEnding text) constructor.indent lines)) =
      Injection.lineEnding text := by
  obtain ⟨before, opens, _⟩ := stands.opened
  have apart : ∀ body : List Char,
      contains ['\r', '\n'] (constructor.opened.passed.reverse ++
          (body ++ '\x7d' :: constructor.behind)) = true ↔
        contains ['\r', '\n'] constructor.opened.passed.reverse = true ∨
          contains ['\r', '\n'] body = true ∨
            contains ['\r', '\n'] ('\x7d' :: constructor.behind) = true := by
    intro body
    have noReturn : constructor.opened.passed.reverse.getLast? ≠ some '\r' := by
      simp [opens]
    have noFeed : ('\x7d' :: constructor.behind).head? ≠ some '\n' := by simp
    rw [contains_pair_append, contains_pair_append]
    simp only [noReturn, noFeed, false_and, and_false, or_false]
  have rendered := Injection.contains_renderBody (Injection.isEnding_lineEnding text)
    (isIndent_indent constructor) fitLines
  have whole := apart constructor.body
  rw [← stands.parts] at whole
  have shape : ∀ body, Injection.replaceBody constructor body =
      constructor.opened.passed.reverse ++ (body ++ '\x7d' :: constructor.behind) :=
    fun body => List.append_assoc _ _ _
  have same : contains ['\r', '\n'] (Injection.replaceBody constructor
      (Injection.renderBody (Injection.lineEnding text) constructor.indent lines)) =
        contains ['\r', '\n'] text := by
    rw [Bool.eq_iff_iff, shape, apart, rendered]
    by_cases windows : contains ['\r', '\n'] text = true
    · simp [Injection.lineEnding, windows]
    · have plain : Injection.lineEnding text = ['\n'] := by simp [Injection.lineEnding, windows]
      rw [whole, not_or, not_or] at windows
      simp only [plain, windows.1, windows.2.2, whole, windows.2.1]
      simp
  rw [Injection.lineEnding, same]
  rfl

end StandsIn

end Constructor

namespace Injection

/-- Registers the messages of every class that wants it, one class after the other. -/
def injectEach (statement : String) (records : List ScriptClass) (text : String) : String :=
  (records.filter ScriptClass.wantsInjection).foldl
    (fun text record => inject record.name statement record.messages text) text

/-- Injection keeps the line ending of a text. -/
theorem lineEnding_inject {className statement : String} {messages : List Message}
    (fitLines : ∀ message ∈ keepFirst (·.function) messages,
      FitsLine (registration className statement message)) (text : String) :
    lineEnding (inject className statement messages text).toList = lineEnding text.toList := by
  cases found : Constructor.find? className.toList text.toList with
  | none => simp [inject, inject?, update?, found]
  | some constructor =>
      have stands := Constructor.standsIn_of_find? found
      have kept := stands.lineEnding_replaceBody
        (forall_mem_bodyLines IsLine.fitsLine fitLines constructor.body)
      simpa [inject, inject?, update?, found] using kept

end Injection

end ScriptRegistrar
