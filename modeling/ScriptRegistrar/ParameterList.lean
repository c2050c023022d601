import ScriptRegistrar.Text.Search
import ScriptRegistrar.TypeText

/-!
# Parameter lists

The text between the parentheses of a declaration is split at the commas that lie outside all
brackets; of each parameter the default value and the name are dropped, and what remains is its
type in normal form.
-/

namespace ScriptRegistrar.ParameterList

open Text

/-- The type words that never name a parameter. -/
def builtinTypeWords : List (List Char) :=
  ["bool", "char", "short", "int", "long", "float", "double", "unsigned", "signed", "void"].map
    String.toList

/-- One bracket fewer; a bracket that closes nothing does not count. -/
def oneFewer (count : UInt32) : UInt32 :=
  if count = 0 then 0 else count - 1

/-- How deep a place of a parameter list lies.  An angle bracket opens a template argument list
in a type; in a default value it does so only right behind an identifier, so that the comparison
`0 < 1` does not swallow the parameters after it.  The counts have 32 bits and start again at zero
when 2^32 brackets are open. -/
structure Nesting where
  /-- The round, square and curly brackets that are open. -/
  brackets : UInt32 := 0
  /-- The angle brackets that are open. -/
  angles : UInt32 := 0
  /-- Whether the default value has begun. -/
  inDefault : Bool := false
  /-- The character before the place. -/
  previous : Option Char := none
  deriving DecidableEq, Repr

namespace Nesting

def isTop (nesting : Nesting) : Bool :=
  nesting.brackets = 0 && nesting.angles = 0

/-- Whether an angle bracket at this place opens a template argument list. -/
def opensTemplate (nesting : Nesting) : Bool :=
  !nesting.inDefault || nesting.previous.any isIdentifierChar

def step (nesting : Nesting) (character : Char) : Nesting :=
  let behind := { nesting with previous := some character }
  if character = '(' || character = '[' || character = '\x7b' then
    { behind with brackets := nesting.brackets + 1 }
  else if character = ')' || character = ']' || character = '\x7d' then
    { behind with brackets := oneFewer nesting.brackets }
  else if character = '<' && nesting.opensTemplate then
    { behind with angles := nesting.angles + 1 }
  else if character = '>' then
    { behind with angles := oneFewer nesting.angles }
  else if character = '=' && nesting.isTop then
    { behind with inDefault := true }
  else behind

end Nesting

/-- The pieces of a text between the separators that lie outside all brackets.  The count of
brackets starts anew in each piece. -/
def splitFrom (separator : Char) (nesting : Nesting) : List Char → List (List Char)
  | [] => [[]]
  | next :: rest =>
    if next = separator && nesting.isTop then [] :: splitFrom separator {} rest
    else
      match splitFrom separator (nesting.step next) rest with
      | [] => [[next]]
      | piece :: others => (next :: piece) :: others

/-- The pieces of a text between the separators that lie outside all brackets. -/
def splitTop (separator : Char) (text : List Char) : List (List Char) :=
  splitFrom separator {} text

/-- The text before the first `sign` outside all brackets; the whole text if there is none. -/
def beforeTop (sign : Char) (nesting : Nesting) : List Char → List Char
  | [] => []
  | next :: rest =>
    if next = sign && nesting.isTop then []
    else next :: beforeTop sign (nesting.step next) rest

/-- Splits a text before its last blank outside all brackets. -/
def lastTopBlank? (nesting : Nesting) : List Char → Option (List Char × List Char)
  | [] => none
  | next :: rest =>
    match lastTopBlank? (nesting.step next) rest with
    | some (before, behind) => some (next :: before, behind)
    | none => if isBlank next && nesting.isTop then some ([], next :: rest) else none

/-- A declared name without the brackets of an array. -/
def withoutArray (name : List Char) : List Char :=
  if name.getLast? = some ']' then name.takeWhile (· ≠ '[') else name

/-- Whether the last token of a parameter is its name, and not a part of its type. -/
def namesParameter (token : List Char) : Bool :=
  let name := withoutArray (token.dropWhile TypeText.isReferenceSign)
  isIdentifier name && !builtinTypeWords.contains name && name != TypeText.qualifier

/-- The part of a declaration that states the type. -/
def typePart (declaration : List Char) : List Char :=
  match lastTopBlank? {} declaration with
  | none => declaration
  | some (head, tail) =>
    if namesParameter (trim tail) && !(TypeText.normalForm head).isEmpty then head
    else declaration

/-- The type of one parameter; `none` if nothing is declared. -/
def parameterType? (parameter : List Char) : Option (List Char) :=
  match trim (beforeTop '=' {} parameter) with
  | [] => none
  | declaration => some (TypeText.normalForm (typePart declaration))

/-- The types of a parameter list.  An empty list and a lone `void` declare no parameters. -/
def types (text : List Char) : List (List Char) :=
  let inside := trim text
  if inside.isEmpty || inside = "void".toList then []
  else (splitTop ',' inside).filterMap parameterType?

def parse (text : String) : List String :=
  (types text.toList).map String.ofList

end ScriptRegistrar.ParameterList
