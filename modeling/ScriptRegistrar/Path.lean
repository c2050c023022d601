import ScriptRegistrar.Text.Search

/-!
# Paths

A path is kept as the text it was written as, because that is how it is printed.  Its components
are what it is compared by: single dots and doubled slashes inside do not count, a dot in front
and the slash of an absolute path do.
-/

namespace ScriptRegistrar

open Text

/-- A path, as written. -/
structure Path where
  text : String
  deriving DecidableEq, Repr, Inhabited

namespace Path

/-- A component that leads nowhere: between two slashes there is nothing, or a dot. -/
def isIdle (component : List Char) : Bool :=
  component.isEmpty || component = ['.']

def pieces (path : Path) : List (List Char) :=
  fields (· = '/') path.text.toList

def isAbsolute (path : Path) : Bool :=
  path.text.toList.head? = some '/'

/-- The components of a path: the root if it is absolute, a dot if it starts with one, and then
every piece that leads somewhere. -/
def components (path : Path) : List String :=
  match path.pieces with
  | [] => []
  | first :: rest =>
    let front := if path.isAbsolute then ["/"] else if first.isEmpty then [] else
      [String.ofList first]
    front ++ (rest.filter (!isIdle ·)).map String.ofList

def agrees (left right : Path) : Bool :=
  left.components = right.components

/-- The path of something that lies at `inner` below a directory.  An absolute inner path stands
for itself. -/
def join (directory inner : Path) : Path :=
  if inner.isAbsolute then inner
  else if directory.text.isEmpty || directory.text.toList.getLast? = some '/' then
    ⟨directory.text ++ inner.text⟩
  else ⟨directory.text ++ "/" ++ inner.text⟩

/-- The components with slashes between them. -/
def slashed (path : Path) : String :=
  "/".intercalate path.components

/-- What leads from a directory to a path below it. -/
def relativeTo? (path directory : Path) : Option Path :=
  if directory.components.isPrefixOf path.components then
    some ⟨"/".intercalate (path.components.drop directory.components.length)⟩
  else none

/-- Splits a path at its file name: the pieces before it, the last one first, and the name.
`none` if the last component names nothing. -/
def fileName? (path : Path) : Option (List (List Char) × List Char) :=
  match path.pieces.reverse.dropWhile isIdle with
  | [] => none
  | name :: before => if name = ['.', '.'] then none else some (before, name)

/-- Splits a file name at its last dot.  A name whose only dot comes first has no extension. -/
def splitExtension (name : List Char) : List Char × Option (List Char) :=
  let backwards := name.reverse
  match backwards.dropWhile (· ≠ '.') with
  | [] => (name, none)
  | [_] => (name, none)
  | _ :: stem => (stem.reverse, some (backwards.takeWhile (· ≠ '.')).reverse)

def extension? (path : Path) : Option (List Char) := do
  let (_, name) ← path.fileName?
  (splitExtension name).2

/-- Cuts `count` bytes off the end of a text, given backwards; a character is cut off only with
all of its bytes. -/
def cutEnd (count : Nat) : List Char → List Char
  | [] => []
  | last :: before =>
    if last.utf8Size ≤ count then cutEnd (count - last.utf8Size) before else last :: before

/-- A path with another extension, or with none if that is empty.  The old extension is cut off
first and the new one takes the place of all that follows the stem.  A path that then names no
file stays as it is.  `none` if the extension holds a slash, which no file name can. -/
def withExtension? (path : Path) (extension : String) : Option Path :=
  if extension.toList.contains '/' then none
  else
    let old := byteLength (path.extension?.getD [])
    let cut : Path := ⟨String.ofList (cutEnd old path.text.toList.reverse).reverse⟩
    match cut.fileName? with
    | none => some cut
    | some (before, name) =>
      let directory := (before.reverse.map (· ++ ['/'])).flatten
      let suffix := if extension.isEmpty then [] else '.' :: extension.toList
      some ⟨String.ofList (directory ++ (splitExtension name).1 ++ suffix)⟩

end Path

end ScriptRegistrar
