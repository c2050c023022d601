import ScriptRegistrar.FileTree.Failure

/-!
# File trees

The regular files and the directories that a run can see, as a value.  A location is the list of
names that leads from the root to an entry; the root itself is a directory and has no entry.
Entries are told apart by their locations alone: no two of them share a content, as hard links do,
and none stands for another, as symbolic links do.  Permissions and times are left out.  `standsAt?`
is the view that all operations are described by.
-/

namespace ScriptRegistrar

/-- The names that lead from the root to an entry. -/
abbrev Location := List String

abbrev Bytes := List UInt8

inductive Entry where
  | file (content : Bytes)
  | directory
  deriving DecidableEq, Repr

/-- Files and directories, and the directory that relative paths start from. -/
structure FileTree where
  entries : List (Location × Entry) := []
  workingDirectory : Location := []
  deriving DecidableEq, Repr

namespace FileTree

def standsAt? (tree : FileTree) (location : Location) : Option Entry :=
  if location = [] then some .directory
  else (tree.entries.find? (·.1 = location)).map (·.2)

/-- The tree with an entry at a location, in the place of an older one. -/
def set (tree : FileTree) (location : Location) (entry : Entry) : FileTree :=
  { tree with entries := (location, entry) :: tree.entries.filter (·.1 ≠ location) }

def erase (tree : FileTree) (location : Location) : FileTree :=
  { tree with entries := tree.entries.filter (·.1 ≠ location) }

def eraseBelow (tree : FileTree) (location : Location) : FileTree :=
  { tree with entries := tree.entries.filter (!location.isPrefixOf ·.1) }

def hasChildren (tree : FileTree) (location : Location) : Bool :=
  tree.entries.any fun (other, _) => location.isPrefixOf other && other ≠ location

/-- The tree in which a location and all below it have moved. -/
def move (tree : FileTree) (source target : Location) : FileTree :=
  let remaining := (tree.erase target).entries
  { tree with
    entries := remaining.map fun (location, entry) =>
      if source.isPrefixOf location then (target ++ location.drop source.length, entry)
      else (location, entry) }

/-- The tree with a directory at a location and at every location on the way to it. -/
def makeDirectories (tree : FileTree) (above : Location) : Location → FileTree
  | [] => tree
  | name :: rest =>
    let location := above ++ [name]
    let made := if (tree.standsAt? location).isSome then tree else tree.set location .directory
    makeDirectories made location rest

/-- The tree with an entry at a location and directories on the way to it. -/
def place (tree : FileTree) (location : Location) (entry : Entry) : FileTree :=
  (tree.makeDirectories [] location.dropLast).set location entry

def content? (tree : FileTree) (location : Location) : Option Bytes :=
  match tree.standsAt? location with
  | some (.file content) => some content
  | _ => none

@[simp] theorem standsAt?_set_self (tree : FileTree) {location : Location} (entry : Entry)
    (below : location ≠ []) : (tree.set location entry).standsAt? location = some entry := by
  simp [standsAt?, set, below]

@[simp] theorem standsAt?_set_of_ne (tree : FileTree) {location other : Location} (entry : Entry)
    (different : other ≠ location) :
    (tree.set location entry).standsAt? other = tree.standsAt? other := by
  unfold standsAt? set
  split
  · rfl
  · have skipped : decide (location = other) = false := by
      simpa using fun equality => different equality.symm
    rw [List.find?_cons_of_neg (by simpa using skipped), List.find?_filter]
    congr 2
    funext candidate
    by_cases same : candidate.1 = other
    · simp [same, different]
    · simp [same]

@[simp] theorem standsAt?_erase_self (tree : FileTree) {location : Location}
    (below : location ≠ []) :
    (tree.erase location).standsAt? location = none := by
  simp [standsAt?, erase, below]

@[simp] theorem standsAt?_erase_of_ne (tree : FileTree) {location other : Location}
    (different : other ≠ location) :
    (tree.erase location).standsAt? other = tree.standsAt? other := by
  unfold standsAt? erase
  split
  · rfl
  · rw [List.find?_filter]
    congr 2
    funext candidate
    by_cases same : candidate.1 = other
    · simp [same, different]
    · simp [same]

end FileTree

end ScriptRegistrar
