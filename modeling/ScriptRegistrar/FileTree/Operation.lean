import ScriptRegistrar.FileTree.Resolution
import ScriptRegistrar.Text.Utf8

/-!
# Operations on files

Reading, writing, removing and renaming, each with the failures that a file system reports before
it opens a file or changes an entry.  An operation that fails in this way leaves the tree as it is.
A write that breaks off part way, which leaves a file cut short, is not among them.
-/

namespace ScriptRegistrar.FileTree

open Text

def pathExists (tree : FileTree) (path : Path) : Bool :=
  (tree.locate path).isOk

def isDirectory (tree : FileTree) (path : Path) : Bool :=
  match tree.locate path with
  | .ok location => tree.standsAt? location = some .directory
  | .error _ => false

def isFile (tree : FileTree) (path : Path) : Bool :=
  match tree.locate path with
  | .ok location => (tree.content? location).isSome
  | .error _ => false

def read (tree : FileTree) (path : Path) : Except FileFailure Bytes := do
  let location ← tree.locate path
  match tree.standsAt? location with
  | some (.file content) => .ok content
  | some .directory => .error .isADirectory
  | none => .error .notFound

/-- The text of a file, whose bytes must all be valid. -/
def readText (tree : FileTree) (path : Path) : Except FileFailure String := do
  match Utf8.decode? (← tree.read path) with
  | some text => .ok text
  | none => .error .notText

/-- Writes a file, which is made if it does not exist.  A failure is one of opening the file; what
is opened is written to its end. -/
def write (tree : FileTree) (path : Path) (content : Bytes) : Except FileFailure FileTree := do
  let target ← tree.target path
  if target.asDirectory then .error .isADirectory
  else do
    let (location, found) ← tree.lookup .isADirectory target
    if found = some .directory then .error .isADirectory
    else .ok (tree.set location (.file content))

def writeText (tree : FileTree) (path : Path) (text : String) : Except FileFailure FileTree :=
  tree.write path (Utf8.encode text)

def removeFile (tree : FileTree) (path : Path) : Except FileFailure FileTree := do
  let target ← tree.target path
  let (location, found) ← tree.lookup .isADirectory target
  match found with
  | none => .error .notFound
  | some .directory => .error .isADirectory
  | some (.file _) =>
    if target.asDirectory then .error .notADirectory else .ok (tree.erase location)

/-- Moves a directory to a location that is free or an empty directory, outside of itself. -/
def moveDirectory (tree : FileTree) (old new : Location) (found : Option Entry) :
    Except FileFailure FileTree :=
  if old = new then .ok tree
  else if old.isPrefixOf new then .error .invalidArgument
  else if new.isPrefixOf old then .error .directoryNotEmpty
  else
    match found with
    | none => .ok (tree.move old new)
    | some (.file _) => .error .notADirectory
    | some .directory =>
      if tree.hasChildren new then .error .directoryNotEmpty else .ok (tree.move old new)

/-- Gives the entry at one path the name of another.  A file takes the place of a file, and a
directory that of an empty directory outside of it. -/
def rename (tree : FileTree) (source target : Path) : Except FileFailure FileTree := do
  let leaving ← tree.target source
  let arriving ← tree.target target
  if leaving.name.isNone || arriving.name.isNone then .error .busy
  else do
    let (old, moved) ← tree.lookup .busy leaving
    match moved with
    | none => .error .notFound
    | some entry => do
      let (new, found) ← tree.lookup .busy arriving
      match entry with
      | .directory => moveDirectory tree old new found
      | .file content =>
        if leaving.asDirectory || arriving.asDirectory then .error .notADirectory
        else if found = some .directory then .error .isADirectory
        else .ok ((tree.erase old).set new (.file content))

/-- Makes a directory where nothing stands. -/
def makeDirectory (tree : FileTree) (path : Path) : Except FileFailure FileTree := do
  let target ← tree.target path
  let (location, found) ← tree.lookup .isADirectory target
  if found.isSome then .error .isADirectory else .ok (tree.set location .directory)

end ScriptRegistrar.FileTree
