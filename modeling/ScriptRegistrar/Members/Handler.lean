import ScriptRegistrar.Bracketed
import ScriptRegistrar.ParameterList
import ScriptRegistrar.Record

/-!
# Message handlers

A handler is declared as `void Name(parameters);`, with `virtual` before it and `const`,
`override` and `final` behind it if they are wanted.  What stands in front decides under which
rule it is found: the message marker, the marker that gives the message a name, or nothing.
-/

namespace ScriptRegistrar.Handler

open Text

/-- A declaration up to its opening parenthesis. -/
structure Head where
  /-- The name between the quotation marks of a named marker. -/
  label : List Char := []
  /-- The name of the declared function. -/
  function : List Char
  /-- The text behind the opening parenthesis. -/
  behind : List Char
  deriving DecidableEq, Repr

structure Declaration where
  label : List Char
  function : List Char
  /-- The text between the parentheses. -/
  parameters : List Char
  deriving DecidableEq, Repr

namespace Head

/-- Reads `void Name(`, with or without `virtual`. -/
def read? (label : List Char) : Recogniser Head := fun cursor => do
  let start := ((cursor.sign? "virtual").bind Cursor.blanks?).getD cursor
  let result ← start.sign? "void"
  let name ← result.blanks?
  let (function, behindName) ← name.word?
  let behind ← behindName.passBlanks.sign? "("
  some (⟨label, function, behind.ahead⟩, behind)

/-- Reads a declaration that stands alone. -/
def readBare? : Recogniser Head := fun cursor =>
  if cursor.isBoundary then read? [] cursor else none

/-- Reads a declaration behind the marker that takes no argument. -/
def readMarked? (marker : List Char) : Recogniser Head := fun cursor => do
  guard cursor.isBoundary
  let behindMarker ← cursor.literal? marker
  let inside ← behindMarker.passBlanks.sign? "("
  let behind ← inside.passBlanks.sign? ")"
  read? [] behind.passBlanks

/-- Reads a declaration behind the marker that takes a name in quotation marks. -/
def readNamed? (marker : List Char) : Recogniser Head := fun cursor => do
  guard cursor.isBoundary
  let behindMarker ← cursor.literal? marker
  let inside ← behindMarker.passBlanks.sign? "("
  let quoted ← inside.passBlanks.sign? "\""
  let label := quoted.ahead.takeWhile (· ≠ '"')
  let behindLabel ← (quoted.passWhile (· ≠ '"')).sign? "\""
  let behind ← behindLabel.passBlanks.sign? ")"
  read? label behind.passBlanks

/-- Whether a declaration ends here, with specifiers before its semicolon or without. -/
def endsDeclaration (behind : List Char) : Bool :=
  let specified := (((Cursor.start behind).passBlanks.passOptional "const").passOptional
    "override").passOptional "final"
  specified.nextIs (· = ';')

/-- The whole declaration, if the parameter list is closed and a semicolon follows. -/
def complete? (head : Head) : Option Declaration := do
  let (parameters, behind) ← Bracketed.parentheses? head.behind
  guard (endsDeclaration behind)
  some ⟨head.label, head.function, parameters⟩

end Head

namespace Declaration

/-- The complete declarations in a text whose heads `read?` recognises, in text order. -/
def all (read? : Recogniser Head) (text : List Char) : List Declaration :=
  (Recogniser.occurrences read? (Cursor.start text)).filterMap Head.complete?

/-- The message of a declaration.  A label without a character besides blanks gives no name, and
then the message has the name of the function. -/
def message (rule : DiscoveryRule) (declaration : Declaration) : Message :=
  let label := trim declaration.label
  { name := String.ofList (if label.isEmpty then declaration.function else label)
    function := String.ofList declaration.function
    parameters := (ParameterList.types declaration.parameters).map String.ofList
    rule := rule }

end Declaration

end ScriptRegistrar.Handler
