import ScriptRegistrar.Toml.Quoted
import ScriptRegistrar.Toml.Scalar

/-!
# TOML documents

A document is a list of lines: headers, which open a table or add one to an array, and keys with
values, which belong to the table opened last.  Arrays and inline tables may run over several
lines.
-/

namespace ScriptRegistrar.Toml

open Text

namespace Reading

/-- A reader takes a part off the front of a text. -/
abbrev Reader (α : Type) := List Char → Option (α × List Char)

def isSpace (character : Char) : Bool :=
  character = ' ' || character = '\t'

def skipSpaces (text : List Char) : List Char :=
  text.dropWhile isSpace

/-- A text without the spaces, line breaks and comments it starts with. -/
def skipLayout (inComment : Bool) : List Char → Option (List Char)
  | [] => some []
  | next :: rest =>
    if next = '\n' then skipLayout false rest
    else if next = '\r' then
      if rest.head? = some '\n' then skipLayout false rest else none
    else if inComment then
      if Quotation.isPrintable next then skipLayout true rest else none
    else if isSpace next then skipLayout false rest
    else if next = '#' then skipLayout true rest
    else some (next :: rest)

/-- What follows a line that holds no more than spaces and a comment. -/
def endLine? (inComment : Bool) : List Char → Option (List Char)
  | [] => some []
  | next :: rest =>
    if next = '\n' then some rest
    else if next = '\r' then
      if rest.head? = some '\n' then some (rest.drop 1) else none
    else if inComment then
      if Quotation.isPrintable next then endLine? true rest else none
    else if isSpace next then endLine? false rest
    else if next = '#' then endLine? true rest
    else none

/-- A character of a key without quotation marks. -/
def isBareKeyChar (character : Char) : Bool :=
  character.isAlphanum || character = '_' || character = '-'

def simpleKey? : Reader String := fun text =>
  match text.takeWhile isBareKeyChar with
  | [] => (Quotation.readLine? text).map fun (key, rest) => (String.ofList key, rest)
  | key => some (String.ofList key, text.dropWhile isBareKeyChar)

/-- Reads a key of at least one part, with dots between its parts: the last part and those before
it, the last one of them first. -/
def key? (before : List String) : Nat → Reader (List String × String)
  | 0, _ => none
  | fuel + 1, text => do
    let (part, rest) ← simpleKey? text
    match skipSpaces rest with
    | '.' :: rest => key? (part :: before) fuel (skipSpaces rest)
    | rest => some ((before.reverse, part), rest)

/-- Reads a key: the path to its table, and its last part. -/
def dottedKey? : Reader (List String × String) := fun text =>
  key? [] text.length text

/-- Reads a key, an equals sign and a value. -/
def assignment? (value? : Reader Value) : Reader ((List String × String) × Value) :=
  fun text => do
    let (key, rest) ← dottedKey? text
    let rest ← Scalar.sign? '=' (skipSpaces rest)
    let (value, rest) ← value? (skipSpaces rest)
    some ((key, value), rest)

/-- Reads members up to a closing sign, with commas between them and perhaps one more at the
end. -/
def members? (member? : Reader α) (closing : Char) : Nat → Reader (List α)
  | 0, _ => none
  | fuel + 1, text => do
    match ← skipLayout false text with
    | [] => none
    | next :: rest =>
      if next = closing then some ([], rest)
      else do
        let (member, rest) ← member? (next :: rest)
        match ← skipLayout false rest with
        | ',' :: rest => do
          let (members, rest) ← members? member? closing fuel rest
          some (member :: members, rest)
        | next :: rest => if next = closing then some ([member], rest) else none
        | [] => none

def inlineEntries? (assignments : List ((List String × String) × Value)) : Option Entries :=
  assignments.foldlM (fun entries ((path, key), value) => entries.insert path key value) []

/-- Reads a value in which brackets and braces nest at most `depth` deep. -/
def value? (depth : Nat) (text : List Char) : Option (Value × List Char) :=
  match text with
  | [] => none
  | next :: rest =>
    if next = '"' || next = '\'' then
      (Quotation.read? text).map fun (value, rest) => (.string (String.ofList value), rest)
    else if next = '[' then
      match depth with
      | 0 => none
      | depth + 1 =>
        (members? (value? depth) ']' text.length rest).map fun (items, rest) =>
          (.array false items, rest)
    else if next = '\x7b' then
      match depth with
      | 0 => none
      | depth + 1 => do
        let (assignments, rest) ←
          members? (assignment? (value? depth)) '\x7d' text.length rest
        let entries ← inlineEntries? assignments
        some (.table .inline entries, rest)
    else Scalar.read? text

/-- How deep brackets and braces of a document may nest. -/
def depthLimit : Nat := 80

end Reading

structure Header where
  /-- Whether the table is an item of an array. -/
  isItem : Bool
  path : List String
  key : String
  deriving DecidableEq, Repr

/-- A document while it is read. -/
structure Draft where
  /-- The finished tables. -/
  root : Entries := []
  /-- The header of the open table; `none` before the first header. -/
  header : Option Header := none
  /-- The entries of the open table. -/
  current : Entries := []

namespace Draft

/-- The document with the open table put into its place. -/
def close? (draft : Draft) : Option Entries :=
  match draft.header with
  | none => some draft.current
  | some header =>
    if header.isItem then draft.root.closeItem header.path header.key draft.current
    else draft.root.closeTable header.path header.key draft.current

/-- Ends the open table and opens another. -/
def start? (draft : Draft) (header : Header) : Option Draft := do
  let root ← draft.close?
  if header.isItem then some ⟨root, some header, []⟩
  else do
    let (current, root) ← root.openTable header.path header.key
    some ⟨root, some header, current⟩

/-- Sets a key in the open table. -/
def set? (draft : Draft) (path : List String) (key : String) (value : Value) : Option Draft :=
  (draft.current.insert path key value).map ({ draft with current := · })

end Draft

namespace Reading

/-- Reads a header, from behind its first bracket. -/
def header? : Reader Header := fun text => do
  let (isItem, inside) := match text with
    | '[' :: rest => (true, rest)
    | _ => (false, text)
  let ((path, key), rest) ← dottedKey? (skipSpaces inside)
  let rest ← Scalar.sign? ']' (skipSpaces rest)
  let rest ← if isItem then Scalar.sign? ']' rest else some rest
  some (⟨isItem, path, key⟩, rest)

/-- Reads the lines of a document into a draft. -/
def lines? (draft : Draft) : Nat → List Char → Option Draft
  | 0, _ => none
  | fuel + 1, text => do
    match ← skipLayout false text with
    | [] => some draft
    | '[' :: rest => do
      let (header, rest) ← header? rest
      let draft ← draft.start? header
      lines? draft fuel (← endLine? false rest)
    | start => do
      let (((path, key), value), rest) ← assignment? (value? depthLimit) start
      let draft ← draft.set? path key value
      lines? draft fuel (← endLine? false rest)

/-- A text without the byte order mark it starts with. -/
def dropByteOrderMark : List Char → List Char
  | '\ufeff' :: rest => rest
  | text => text

end Reading

/-- The root table of a document; `none` if the text is no document. -/
def parse? (text : String) : Option Entries := do
  let characters := Reading.dropByteOrderMark text.toList
  let draft ← Reading.lines? {} (characters.length + 1) characters
  draft.close?

end ScriptRegistrar.Toml
