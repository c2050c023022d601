import ScriptRegistrar.Bracketed
import ScriptRegistrar.Text.Search

/-!
# Default constructors

The default constructor of a class reads `Name() \x7b`, with `noexcept` before the brace or
without; a member initializer list is not understood.  A destructor reads the same but for the
tilde in front, and is passed over.
-/

namespace ScriptRegistrar

open Text

structure Constructor where
  /-- The place at which its name starts. -/
  start : Cursor
  /-- The place behind its opening brace. -/
  opened : Cursor
  /-- The text between its braces. -/
  body : List Char
  /-- The text behind its closing brace. -/
  behind : List Char
  deriving DecidableEq, Repr

namespace Constructor

/-- Passes `noexcept`, with a condition or without, if it comes next. -/
def passException (cursor : Cursor) : Cursor :=
  match cursor.sign? "noexcept" with
  | none => cursor
  | some behind =>
    let specified := behind.passBlanks
    let condition := do
      let inside ← specified.sign? "("
      let behind ← ((inside.passBlanks.passWhile isWord).passBlanks).sign? ")"
      some behind.passBlanks
    condition.getD specified

/-- Reads the head of a constructor that starts here, up to its opening brace.  The result holds
the place where it starts and the place behind the brace. -/
def readHead? (className : List Char) : Recogniser (Cursor × Cursor) := fun cursor => do
  guard cursor.isBoundary
  let name ← cursor.literal? className
  let inside ← name.passBlanks.sign? "("
  let behind ← inside.passBlanks.sign? ")"
  let opened ← (passException behind.passBlanks).sign? "\x7b"
  some ((cursor, opened), opened)

/-- Whether a tilde stands before a place, with blanks between them or without. -/
def isDestructor (start : Cursor) : Bool :=
  (start.passed.dropWhile isBlank).head? = some '~'

/-- The first default constructor of a class in a text. -/
def find? (className : List Char) (text : List Char) : Option Constructor := do
  let heads := Recogniser.occurrences (readHead? className) (Cursor.start text)
  let (start, opened) ← heads.find? (fun head => !isDestructor head.1)
  let (body, behind) ← Bracketed.braces? opened.ahead
  some ⟨start, opened, body, behind⟩

/-- The blanks that the line of a constructor starts with. -/
def indent (constructor : Constructor) : List Char :=
  (constructor.start.passed.takeWhile (· ≠ '\n')).reverse.takeWhile isBlank

end Constructor

end ScriptRegistrar
