import ScriptRegistrar.Text.WordRanges

/-!
# Word characters and identifiers

Declarations are recognised by words: maximal runs of word characters in the sense of Unicode.
Identifiers of a configuration, and parameter names, are narrower: ASCII letters, digits and
underscores, with no digit first.
-/

namespace ScriptRegistrar.Text

/-- An ASCII letter, a digit or an underscore. -/
def isIdentifierChar (character : Char) : Bool :=
  character.isAlphanum || character = '_'

/-- An ASCII letter or an underscore. -/
def isIdentifierStart (character : Char) : Bool :=
  character.isAlpha || character = '_'

/-- A character of a word: below U+0080 an identifier character, above it one of the table. -/
def isWord (character : Char) : Bool :=
  if character.toNat < 0x80 then isIdentifierChar character
  else WordRanges.covers character.toNat

/-- Whether a text is an identifier: a letter or an underscore first, and after it letters,
digits and underscores, all of them ASCII. -/
def isIdentifier : List Char → Bool
  | [] => false
  | first :: rest => isIdentifierStart first && rest.all isIdentifierChar

/-- Whether a word starts or ends between two neighbours, either of which may be missing. -/
def isBoundary (left right : Option Char) : Bool :=
  left.any isWord != right.any isWord

end ScriptRegistrar.Text
