import ScriptRegistrar.Text.Blank
import ScriptRegistrar.Text.Word

/-!
# Types as text

Types are compared as text, in a normal form that leaves out what does not change which message a
handler answers to: the qualifier `const`, reference and pointer signs, and the layout.
`const Hit&`, `Hit *` and `Hit` all have the normal form `Hit`.
-/

namespace ScriptRegistrar.TypeText

open Text

/-- The qualifier that a normal form leaves out. -/
def qualifier : List Char :=
  "const".toList

/-- A reference or a pointer sign. -/
def isReferenceSign (character : Char) : Bool :=
  character = '&' || character = '*'

/-- The signs that no blank stands next to in a normal form. -/
def isTight (character : Char) : Bool :=
  character = '<' || character = '>' || character = ',' || character = ':' ||
    character = '(' || character = ')' || character = '[' || character = ']'

/-- A finished run of identifier characters, given backwards: a blank if it is the qualifier. -/
def closeRun (run : List Char) : List Char :=
  if run.reverse = qualifier then [' '] else run.reverse

/-- Puts a blank in the place of every maximal run of identifier characters that reads as the
qualifier.  `run` holds the identifier characters just read, the last one first. -/
def dropQualifier (run : List Char) : List Char → List Char
  | [] => closeRun run
  | next :: rest =>
    if isIdentifierChar next then dropQualifier (next :: run) rest
    else closeRun run ++ next :: dropQualifier [] rest

/-- Whether a blank between two characters is kept. -/
def keepsBlank (left : Option Char) (right : Char) : Bool :=
  left.any (!isTight ·) && !isTight right

/-- Leaves one space of every run of blanks, and none at the ends or next to a tight sign.
`last` is the character written last, and `blankSeen` says that blanks were read since. -/
def tighten (last : Option Char) (blankSeen : Bool) : List Char → List Char
  | [] => []
  | next :: rest =>
    if isBlank next then tighten last true rest
    else if blankSeen && keepsBlank last next then ' ' :: next :: tighten (some next) false rest
    else next :: tighten (some next) false rest

def normalForm (text : List Char) : List Char :=
  tighten none false (dropQualifier [] (text.filter (!isReferenceSign ·)))

/-- The normal form of a type. -/
def normalize (text : String) : String :=
  String.ofList (normalForm text.toList)

end ScriptRegistrar.TypeText
