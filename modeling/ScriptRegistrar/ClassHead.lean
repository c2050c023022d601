import ScriptRegistrar.Text.Search

/-!
# Heads of class declarations

The head of a script class reads `class MACROS Name final : public Base`, with `struct` for
`class`, any number of words before the name, and `final` left out or not.  Heads are recognised
by their words and signs alone; comments and string literals are not understood.
-/

namespace ScriptRegistrar

open Text

structure ClassHead where
  /-- The name of the class. -/
  name : String
  /-- The byte offset at which the head starts. -/
  start : Nat
  /-- The byte offset behind the head. -/
  stop : Nat
  deriving DecidableEq, Repr

namespace ClassHead

/-- The declared name among the words between the keyword and the colon: the last word, or the
last but one if the last says `final`. -/
def declaredName? (words : List (List Char)) : Option (List Char) :=
  match words.reverse with
  | [] => none
  | [only] => some only
  | last :: previous :: _ => some (if last = "final".toList then previous else last)

/-- The places that one or more blanks from here lead to, the farthest first. -/
def behindBlanks (passed : List Char) : List Char → List Cursor
  | [] => []
  | next :: rest =>
    if isBlank next then behindBlanks (next :: passed) rest ++ [⟨next :: passed, rest⟩] else []

/-- Reads the base class and the end of its last word. -/
def base? (base : List Char) (cursor : Cursor) : Option Cursor := do
  let cursor ← cursor.literal? base
  if cursor.isBoundary then some cursor else none

def read? (base : List Char) : Recogniser ClassHead := fun cursor => do
  guard cursor.isBoundary
  let behindKeyword ← cursor.sign? "class" <|> cursor.sign? "struct"
  let declaration ← behindKeyword.blanks?
  let colon := declaration.passWhile (fun next => isWord next || isBlank next)
  let name ← declaredName? (words (declaration.ahead.takeWhile
    (fun next => isWord next || isBlank next)))
  let behindColon ← colon.sign? ":"
  let behindAccess ← behindColon.passBlanks.sign? "public"
  let stop ← (behindBlanks behindAccess.passed behindAccess.ahead).findSome? (base? base)
  some (⟨String.ofList name, cursor.offset, stop.offset⟩, stop)

/-- The first head at or behind a cursor of a class that derives from `base`. -/
def next? (base : String) (cursor : Cursor) : Option (ClassHead × Cursor) :=
  Recogniser.first? (read? base.toList) cursor

/-- The heads in a text from a byte offset on, each looked for behind the end of the one
before. -/
def all (base : String) (text : String) (offset : Nat) : List ClassHead :=
  match Cursor.atOrAfter? text.toList offset with
  | none => []
  | some cursor => Recogniser.occurrences (read? base.toList) cursor

end ClassHead

end ScriptRegistrar
