import ScriptRegistrar.Bracketed
import ScriptRegistrar.Text.Cursor

/-!
# Bodies of classes

The body of a class stands between the first opening brace behind its head and the brace that
closes it.
-/

namespace ScriptRegistrar

open Text

/-- Why a header cannot be read further.  Each cause names the class it is about. -/
inductive ScanFailure where
  /-- No opening brace follows the head of the class. -/
  | missingBody (className : String)
  /-- The text ends before the body is closed. -/
  | unbalancedBraces (className : String)
  deriving DecidableEq, Repr

namespace ScanFailure

def className : ScanFailure → String
  | .missingBody className => className
  | .unbalancedBraces className => className

def message : ScanFailure → String
  | .missingBody className => "class " ++ className ++ " has no body"
  | .unbalancedBraces className => "class " ++ className ++ " has unbalanced braces"

end ScanFailure

structure ClassBody where
  /-- The text between the braces. -/
  text : List Char
  /-- The byte offset of the opening brace. -/
  opening : Nat
  /-- The place behind the closing brace. -/
  behind : Cursor
  deriving DecidableEq, Repr

namespace ClassBody

def stop (body : ClassBody) : Nat :=
  body.behind.offset

def after (className : String) (cursor : Cursor) : Except ScanFailure ClassBody :=
  let opening := cursor.passWhile (· ≠ '\x7b')
  match opening.ahead with
  | [] => .error (.missingBody className)
  | brace :: rest =>
    match Bracketed.braces? rest with
    | none => .error (.unbalancedBraces className)
    | some (inside, behind) =>
      .ok ⟨inside, opening.offset,
        ⟨'\x7d' :: inside.reverse ++ brace :: opening.passed, behind⟩⟩

/-- Reads the body of a class behind a byte offset of a text.  At an offset past the end, or
inside a character, no brace follows. -/
def extract (text className : String) (offset : Nat) : Except ScanFailure ClassBody :=
  match Cursor.atOffset? text.toList offset with
  | none => .error (.missingBody className)
  | some cursor => after className cursor

/-- The byte offset of the sign that closes the one at a byte offset; `none` if another character
stands there or the text ends first. -/
def closingOffset? (opening closing : Char) (text : String) (offset : Nat) : Option Nat := do
  let cursor ← Cursor.atOffset? text.toList offset
  match cursor.ahead with
  | [] => none
  | next :: rest =>
    if next = opening then
      let (inside, _) ← Bracketed.close? opening closing 0 rest
      some (offset + opening.utf8Size + byteLength inside)
    else none

/-- The byte offset of the brace that closes the one at a byte offset. -/
def matchingBrace? (text : String) (offset : Nat) : Option Nat :=
  closingOffset? '\x7b' '\x7d' text offset

def matchingParenthesis? (text : String) (offset : Nat) : Option Nat :=
  closingOffset? '(' ')' text offset

end ClassBody

end ScriptRegistrar
