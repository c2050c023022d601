import ScriptRegistrar.FileTree
import ScriptRegistrar.Path

/-!
# Where a path leads

A path is followed piece by piece, from the root or from the working directory.  Every piece but
the last must lead to a directory, two dots lead to the directory above, and a slash at the end
asks for a directory.
-/

namespace ScriptRegistrar.FileTree

open Text

/-- The greatest number of bytes of a name. -/
def nameLimit : Nat := 255

/-- The number of bytes that a path must stay below. -/
def pathLimit : Nat := 4096

/-- The location that some pieces of a path lead to. -/
def follow (tree : FileTree) (location : Location) :
    List (List Char) → Except FileFailure Location
  | [] => .ok location
  | piece :: rest =>
    if tree.standsAt? location ≠ some .directory then .error .notADirectory
    else if Path.isIdle piece then follow tree location rest
    else if piece = ['.', '.'] then follow tree location.dropLast rest
    else if nameLimit < byteLength piece then .error .nameTooLong
    else
      let inner := location ++ [String.ofList piece]
      if (tree.standsAt? inner).isSome then follow tree inner rest else .error .notFound

/-- Refuses a path that no system call takes. -/
def checkPath (path : Path) : Except FileFailure Unit :=
  if path.text.toList.contains '\x00' then .error .zeroInName
  else if path.text.isEmpty then .error .notFound
  else if pathLimit ≤ byteLength path.text.toList then .error .nameTooLong
  else .ok ()

/-- The location that a path starts from. -/
def origin (tree : FileTree) (path : Path) : Location :=
  if path.isAbsolute then [] else tree.workingDirectory

/-- The location of an entry that exists. -/
def locate (tree : FileTree) (path : Path) : Except FileFailure Location := do
  checkPath path
  tree.follow (tree.origin path) path.pieces

/-- The last piece of a path that is to name an entry, which need not exist. -/
structure Target where
  /-- The location of the directory that holds the entry. -/
  parent : Location
  /-- The name of the entry; `none` if the last piece is a dot, two dots or missing. -/
  name : Option String
  /-- Whether a slash follows. -/
  asDirectory : Bool
  deriving DecidableEq, Repr

/-- Follows all of a path but its last piece. -/
def target (tree : FileTree) (path : Path) : Except FileFailure Target := do
  checkPath path
  let backwards := path.pieces.reverse
  let slashes := backwards.takeWhile List.isEmpty
  match backwards.dropWhile List.isEmpty with
  | [] => .ok ⟨tree.origin path, none, true⟩
  | last :: before =>
    let parent ← tree.follow (tree.origin path) before.reverse
    if tree.standsAt? parent ≠ some .directory then .error .notADirectory
    else if last = ['.'] || last = ['.', '.'] then .ok ⟨parent, none, !slashes.isEmpty⟩
    else .ok ⟨parent, some (String.ofList last), !slashes.isEmpty⟩

/-- The location that a target names and what stands there.  `unnamed` is the failure if the
target has no name. -/
def lookup (tree : FileTree) (unnamed : FileFailure) (target : Target) :
    Except FileFailure (Location × Option Entry) :=
  match target.name with
  | none => .error unnamed
  | some name =>
    if nameLimit < byteLength name.toList then .error .nameTooLong
    else .ok (target.parent ++ [name], tree.standsAt? (target.parent ++ [name]))

/-- The location that the text of a path leads to, whatever stands there. -/
def statedLocation (tree : FileTree) (path : Path) : Location :=
  path.pieces.foldl (fun location piece =>
    if Path.isIdle piece then location
    else if piece = ['.', '.'] then location.dropLast
    else location ++ [String.ofList piece]) (tree.origin path)

end ScriptRegistrar.FileTree
