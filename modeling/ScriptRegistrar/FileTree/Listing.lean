import ScriptRegistrar.FileTree.Resolution

/-!
# Listing files

The regular files below a directory, depth first: the entries of each directory come in the order
of their names, files and directories together.  That is the order of their locations compared
name by name.
-/

namespace ScriptRegistrar.FileTree

/-- Whether a location comes before another or is the same: the first name that differs decides,
and a directory comes before what it holds. -/
def comesBefore : Location → Location → Bool
  | [], _ => true
  | _ :: _, [] => false
  | left :: leftRest, right :: rightRest =>
    if left = right then comesBefore leftRest rightRest else left < right

/-- The locations of the regular files below a directory, relative to it and in order. -/
def fileLocations (tree : FileTree) (directory : Location) : List Location :=
  let inside := tree.entries.filterMap fun (location, entry) =>
    match entry with
    | .file _ =>
      if directory.isPrefixOf location then some (location.drop directory.length) else none
    | .directory => none
  inside.mergeSort comesBefore

/-- The paths of the regular files below a directory, in order. -/
def filesBelow (tree : FileTree) (directory : Path) : List Path :=
  match tree.locate directory with
  | .error _ => []
  | .ok location =>
    (tree.fileLocations location).map fun names => directory.join ⟨"/".intercalate names⟩

/-- What differs between two trees: the locations whose file is new, has another content or is
gone, with the new content. -/
def changes (before after : FileTree) : List (Location × Option Bytes) :=
  let written := after.entries.filterMap fun (location, entry) =>
    match entry with
    | .file content =>
      if before.content? location = some content then none else some (location, some content)
    | .directory => none
  let removed := before.entries.filterMap fun (location, entry) =>
    match entry with
    | .file _ => if (after.content? location).isSome then none else some (location, none)
    | .directory => none
  written ++ removed

end ScriptRegistrar.FileTree
