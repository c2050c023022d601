import ScriptRegistrar.Record
import ScriptRegistrar.Text.Search
import ScriptRegistrar.TypeText

/-!
# Property declarations

A property is declared as `MARKER() Type name;`, with an initializer before the semicolon or
without.  The type is the shortest text behind the marker that leaves a declarator behind it.
-/

namespace ScriptRegistrar.PropertyDeclaration

open Text

/-- A character that may stand in the type of a property. -/
def isTypeChar (character : Char) : Bool :=
  isWord character || isBlank character || character = ':' || character = '<' ||
    character = '>' || character = ',' || character = '*' || character = '&'

/-- Passes an initializer, if one comes next: an equals sign and all up to the semicolon, or a
brace and all up to the first closing one. -/
def passInitializer (cursor : Cursor) : Option Cursor :=
  if cursor.nextIs (· = '=') then some (cursor.passWhile (· ≠ ';'))
  else if cursor.nextIs (· = '\x7b') then (cursor.passWhile (· ≠ '\x7d')).sign? "\x7d"
  else some cursor

/-- Reads the name of a property, its initializer and the semicolon. -/
def readDeclarator? : Recogniser (List Char) := fun cursor => do
  let start := cursor.passBlanks
  guard start.isBoundary
  let (name, behindName) ← start.word?
  let behindValue ← passInitializer behindName.passBlanks
  let behind ← behindValue.sign? ";"
  some (name, behind)

/-- Lengthens a type, given backwards as the first part of `passed`, until a declarator follows.
The result is the type, the name and the place behind the semicolon. -/
def readType? (type passed : List Char) : List Char →
    Option ((List Char × List Char) × Cursor)
  | [] => none
  | next :: rest =>
    match readDeclarator? ⟨passed, next :: rest⟩ with
    | some (name, behind) => some ((type.reverse, name), behind)
    | none => if isTypeChar next then readType? (next :: type) (next :: passed) rest else none

/-- Reads a marked property that starts here. -/
def read? (marker : List Char) : Recogniser Property := fun cursor => do
  guard cursor.isBoundary
  let behindMarker ← cursor.literal? marker
  let inside ← behindMarker.passBlanks.sign? "("
  let behind ← inside.passBlanks.sign? ")"
  let start := behind.passBlanks
  match start.ahead with
  | [] => none
  | first :: rest =>
    guard (isIdentifierStart first)
    let ((type, name), behind) ← readType? [first] (first :: start.passed) rest
    some (⟨String.ofList name, String.ofList (TypeText.normalForm type)⟩, behind)

def all (marker : List Char) (body : List Char) : List Property :=
  Recogniser.occurrences (read? marker) (Cursor.start body)

end ScriptRegistrar.PropertyDeclaration
