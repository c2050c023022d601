import ScriptRegistrar.Text.Blank
import ScriptRegistrar.Text.Word

/-!
# Cursors

A cursor is a place in a text: what lies before it, read backwards, and what lies ahead.
Recognisers move a cursor forward, so the character before a place is always at hand, and with it
the question whether a word starts or ends there.  Offsets count the bytes of the UTF-8 form of
the text before the cursor.

`Cursor.text` is the view that no step changes.
-/

namespace ScriptRegistrar.Text

/-- The number of bytes of the UTF-8 form of a text. -/
def byteLength : List Char → Nat
  | [] => 0
  | next :: rest => next.utf8Size + byteLength rest

/-- A place in a text. -/
structure Cursor where
  /-- The characters before the place, the nearest first. -/
  passed : List Char
  /-- The characters after the place, the nearest first. -/
  ahead : List Char
  deriving DecidableEq, Repr

namespace Cursor

def start (text : List Char) : Cursor :=
  ⟨[], text⟩

def text (cursor : Cursor) : List Char :=
  cursor.passed.reverse ++ cursor.ahead

/-- The byte offset of a place. -/
def offset (cursor : Cursor) : Nat :=
  byteLength cursor.passed

/-- Whether a word starts or ends here. -/
def isBoundary (cursor : Cursor) : Bool :=
  Text.isBoundary cursor.passed.head? cursor.ahead.head?

def nextIs (cursor : Cursor) (test : Char → Bool) : Bool :=
  cursor.ahead.head?.any test

/-- Passes characters as long as they satisfy `test`. -/
def passWhile (cursor : Cursor) (test : Char → Bool) : Cursor :=
  ⟨(cursor.ahead.takeWhile test).reverse ++ cursor.passed, cursor.ahead.dropWhile test⟩

/-- Passes the blanks that come next, if any. -/
def passBlanks (cursor : Cursor) : Cursor :=
  cursor.passWhile isBlank

/-- Passes the blanks that come next, of which there must be one. -/
def blanks? (cursor : Cursor) : Option Cursor :=
  if cursor.nextIs isBlank then some cursor.passBlanks else none

/-- Passes `expected`, which must come next. -/
def literal? (cursor : Cursor) (expected : List Char) : Option Cursor :=
  if expected.isPrefixOf cursor.ahead then
    some ⟨expected.reverse ++ cursor.passed, cursor.ahead.drop expected.length⟩
  else none

/-- Passes a fixed word or sign, which must come next. -/
def sign? (cursor : Cursor) (expected : String) : Option Cursor :=
  cursor.literal? expected.toList

/-- Passes a fixed word and the blanks behind it, if the word comes next. -/
def passOptional (cursor : Cursor) (expected : String) : Cursor :=
  ((cursor.sign? expected).map passBlanks).getD cursor

/-- Reads the whole word that starts here. -/
def word? (cursor : Cursor) : Option (List Char × Cursor) :=
  match cursor.ahead.takeWhile isWord with
  | [] => none
  | word => some (word, cursor.passWhile isWord)

/-- The place `offset` bytes further on, or `none` if the text ends before it or a character
covers that byte. -/
def advance? (passed : List Char) (offset : Nat) : List Char → Option Cursor
  | [] => if offset = 0 then some ⟨passed, []⟩ else none
  | next :: rest =>
    if offset = 0 then some ⟨passed, next :: rest⟩
    else if next.utf8Size ≤ offset then advance? (next :: passed) (offset - next.utf8Size) rest
    else none

/-- The first place that is `offset` bytes further on or behind that, or `none` if the text ends
before it. -/
def advanceTo? (passed : List Char) (offset : Nat) : List Char → Option Cursor
  | [] => if offset = 0 then some ⟨passed, []⟩ else none
  | next :: rest =>
    if offset = 0 then some ⟨passed, next :: rest⟩
    else advanceTo? (next :: passed) (offset - next.utf8Size) rest

/-- The place at a byte offset of a text, or `none` if the text is shorter or a character covers
that byte. -/
def atOffset? (text : List Char) (offset : Nat) : Option Cursor :=
  advance? [] offset text

/-- The first place at or behind a byte offset of a text, or `none` if the text is shorter. -/
def atOrAfter? (text : List Char) (offset : Nat) : Option Cursor :=
  advanceTo? [] offset text

end Cursor

end ScriptRegistrar.Text
