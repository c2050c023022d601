/-!
# TOML strings

A string stands between single or double quotation marks, one on each side or three.  Between
double marks a backslash starts an escape sequence; between triple marks the string may hold line
breaks, and the first one is left out if it comes right behind the marks.
-/

namespace ScriptRegistrar.Toml

/-- A way to quote a string. -/
structure Quotation where
  mark : Char
  /-- Whether a backslash starts an escape sequence. -/
  escapes : Bool
  /-- Whether there are three marks on each side. -/
  triple : Bool
  deriving DecidableEq, Repr

/-- What the reader of a string is in the middle of. -/
inductive QuotedState where
  | plain
  /-- A backslash was read. -/
  | escaped
  /-- An escape sequence lacks some more hexadecimal digits. -/
  | hexadecimal (missing value : Nat)
  /-- A backslash at the end of a line was read, and blanks are passed over. -/
  | folding (lineEnded : Bool)
  deriving DecidableEq, Repr

namespace Quotation

def hexDigit? (digit : Char) : Option Nat :=
  if digit.isDigit then some (digit.toNat - '0'.toNat)
  else if 'a' ≤ digit && digit ≤ 'f' then some (digit.toNat - 'a'.toNat + 10)
  else if 'A' ≤ digit && digit ≤ 'F' then some (digit.toNat - 'A'.toNat + 10)
  else none

/-- The character that a letter behind a backslash stands for. -/
def shortEscape? (letter : Char) : Option Char :=
  match letter with
  | 'b' => some '\x08'
  | 't' => some '\t'
  | 'n' => some '\n'
  | 'f' => some '\x0c'
  | 'r' => some '\r'
  | 'e' => some '\x1b'
  | '"' => some '"'
  | '\\' => some '\\'
  | _ => none

/-- The number of hexadecimal digits behind a letter behind a backslash. -/
def escapeWidth? (letter : Char) : Option Nat :=
  match letter with
  | 'x' => some 2
  | 'u' => some 4
  | 'U' => some 8
  | _ => none

/-- A character that a document may hold outside of line breaks: a tab, or one that is no control
character. -/
def isPrintable (character : Char) : Bool :=
  character = '\t' || (0x20 ≤ character.toNat && character.toNat ≠ 0x7F)

/-- A space, a tab, or a part of a line break. -/
def isFolded (character : Char) : Bool :=
  character = ' ' || character = '\t' || character = '\n' || character = '\r'

/-- The end of a string, if it is here: marks that still belong to the string, and what follows.
Of up to five marks in a row the last three end a string between triple marks. -/
def closing? (quotation : Quotation) (text : List Char) : Option (List Char × List Char) :=
  let marks := (text.takeWhile (· = quotation.mark)).length
  if quotation.triple then
    if marks < 3 then none
    else
      let kept := min (marks - 3) 2
      some (List.replicate kept quotation.mark, text.drop (kept + 3))
  else if marks = 0 then none
  else some ([], text.drop 1)

/-- Whether a character may stand in a string as it is. -/
def isAllowed (quotation : Quotation) (character : Char) (rest : List Char) : Bool :=
  isPrintable character || (quotation.triple &&
    (character = '\n' || (character = '\r' && rest.head? = some '\n')))

/-- Puts a character in front of the string that was read. -/
def emit (character : Char) : Option (List Char × List Char) → Option (List Char × List Char)
  | none => none
  | some (value, rest) => some (character :: value, rest)

def readFrom (quotation : Quotation) (state : QuotedState) :
    List Char → Option (List Char × List Char)
  | [] => none
  | next :: rest =>
    let unfolded := if state = .folding true && !isFolded next then .plain else state
    match unfolded with
    | .plain =>
      match quotation.closing? (next :: rest) with
      | some closed => some closed
      | none =>
        if quotation.escapes && next = '\\' then readFrom quotation .escaped rest
        else if quotation.isAllowed next rest then emit next (readFrom quotation .plain rest)
        else none
    | .escaped =>
      match shortEscape? next, escapeWidth? next with
      | some meant, _ => emit meant (readFrom quotation .plain rest)
      | none, some width => readFrom quotation (.hexadecimal width 0) rest
      | none, none =>
        if quotation.triple && isFolded next then fold next rest false else none
    | .hexadecimal missing value =>
      match hexDigit? next with
      | none => none
      | some digit =>
        let value := 16 * value + digit
        if missing > 1 then readFrom quotation (.hexadecimal (missing - 1) value) rest
        else if value.isValidChar then
          emit (Char.ofNat value) (readFrom quotation .plain rest)
        else none
    | .folding lineEnded => if isFolded next then fold next rest lineEnded else none
where
  /-- Passes over a character behind a backslash at the end of a line. -/
  fold (next : Char) (rest : List Char) (lineEnded : Bool) : Option (List Char × List Char) :=
    if next = '\n' then readFrom quotation (.folding true) rest
    else if next = '\r' && rest.head? ≠ some '\n' then none
    else readFrom quotation (.folding lineEnded) rest

/-- A text without the line break it starts with. -/
def dropLineBreak : List Char → List Char
  | '\n' :: rest => rest
  | '\r' :: '\n' :: rest => rest
  | text => text

/-- Reads a string on one line: the quoted text, and what follows it. -/
def readLine? : List Char → Option (List Char × List Char)
  | '"' :: rest => readFrom ⟨'"', true, false⟩ .plain rest
  | '\'' :: rest => readFrom ⟨'\'', false, false⟩ .plain rest
  | _ => none

/-- Reads a string of any form. -/
def read? (text : List Char) : Option (List Char × List Char) :=
  match text with
  | '"' :: '"' :: '"' :: rest => readFrom ⟨'"', true, true⟩ .plain (dropLineBreak rest)
  | '\'' :: '\'' :: '\'' :: rest => readFrom ⟨'\'', false, true⟩ .plain (dropLineBreak rest)
  | _ => readLine? text

end Quotation

end ScriptRegistrar.Toml
