import ScriptRegistrar.Proofs.FileTree.Agreement
import ScriptRegistrar.Proofs.FileTree.Listing
import ScriptRegistrar.Proofs.Text.ByteOrder

/-!
# Depth-first walks

A walk through a directory takes the names in it in the order of their bytes: a file is met where
its name is, and all that a directory holds where the name of the directory is.  So every file is
met once, and the files are met in the order of their locations compared name by name.  A listing
is such a walk.
-/

namespace ScriptRegistrar.FileTree

open Text

/-- Whether a location comes before another: the first name that differs decides by its bytes, and
what is on the way to a location comes before it. -/
def Precedes : Location → Location → Prop :=
  List.Lex fun left right => Utf8.encode left < Utf8.encode right

instance (left right : Location) : Decidable (Precedes left right) :=
  inferInstanceAs (Decidable (List.Lex _ left right))

/-- What a directory holds comes before the files whose names continue that of the directory. -/
example : Precedes ["a", "z.h"] ["a-b.h"] ∧ Precedes ["a"] ["a", "z.h"] ∧
    Precedes ["z.h"] ["Ä.h"] := by decide

theorem Precedes.comesBefore {left right : Location} (precedes : Precedes left right) :
    FileTree.comesBefore left right = true := by
  induction precedes with
  | nil => rfl
  | rel less =>
      have before := Utf8.encode_lt_encode_iff.mp less
      rw [FileTree.comesBefore, if_neg (ne_of_lt before)]
      exact decide_eq_true before
  | cons _ induction =>
      rw [FileTree.comesBefore, if_pos rfl]
      exact induction

theorem Precedes.ne {left right : Location} (precedes : Precedes left right) : left ≠ right := by
  rintro rfl
  exact List.lex_irrefl (fun name => List.lt_irrefl (Utf8.encode name)) left precedes

/-- The name in a directory of an entry that stands there. -/
def nameIn? (directory : Location) (pair : Location × Entry) : Option String :=
  if pair.1.dropLast = directory then pair.1.getLast? else none

theorem nameIn?_eq_some_iff {directory : Location} {pair : Location × Entry} {name : String} :
    nameIn? directory pair = some name ↔ pair.1 = directory ++ [name] := by
  rw [nameIn?]
  constructor
  · intro found
    split at found
    · rename_i inDirectory
      obtain ⟨parent, shape⟩ := List.getLast?_eq_some_iff.mp found
      rw [shape, List.dropLast_concat] at inDirectory
      rw [shape, inDirectory]
    · cases found
  · intro shape
    rw [shape, List.dropLast_concat, if_pos rfl, List.getLast?_concat]

/-- The names in a directory, in the order in which the tree lists the entries. -/
def namesIn (tree : FileTree) (directory : Location) : List String :=
  tree.entries.filterMap (nameIn? directory)

/-- The names in a directory in the order of their bytes. -/
def sortedNamesIn (tree : FileTree) (directory : Location) : List String :=
  (tree.namesIn directory).mergeSort fun left right => Utf8.encode left ≤ Utf8.encode right

/-- Whether a location lies below a directory. -/
def isBelow (directory location : Location) : Bool :=
  directory.isPrefixOf location && location ≠ directory

theorem isBelow_iff {directory location : Location} :
    isBelow directory location = true ↔ ∃ names, names ≠ [] ∧ location = directory ++ names := by
  rw [isBelow, Bool.and_eq_true, List.isPrefixOf_iff_prefix, decide_eq_true_eq]
  constructor
  · rintro ⟨⟨names, rfl⟩, below⟩
    exact ⟨names, fun nothing => below (by rw [nothing, List.append_nil]), rfl⟩
  · rintro ⟨names, nonempty, rfl⟩
    exact ⟨List.prefix_append directory names, by simpa using nonempty⟩

def entriesBelow (tree : FileTree) (directory : Location) : List (Location × Entry) :=
  tree.entries.filter fun (location, _) => isBelow directory location

/-- Less lies below a directory than below the directory that holds it. -/
theorem length_entriesBelow_lt {tree : FileTree} {directory : Location} {name : String}
    (stands : tree.standsAt? (directory ++ [name]) = some .directory) :
    (tree.entriesBelow (directory ++ [name])).length < (tree.entriesBelow directory).length := by
  have within : tree.entriesBelow (directory ++ [name]) =
      (tree.entriesBelow directory).filter fun (location, _) =>
        isBelow (directory ++ [name]) location := by
    rw [entriesBelow, entriesBelow, List.filter_filter]
    refine List.filter_congr fun pair _ => Bool.eq_iff_iff.mpr ?_
    rw [Bool.and_eq_true, iff_self_and]
    intro below
    obtain ⟨names, _, location⟩ := isBelow_iff.mp below
    exact isBelow_iff.mpr ⟨name :: names, List.cons_ne_nil _ _, by simp [location]⟩
  rw [within]
  refine List.length_filter_lt_length_iff_exists.mpr
    ⟨_, List.mem_filter.mpr ⟨mem_of_standsAt? (by simp) stands, ?_⟩, ?_⟩
  · exact isBelow_iff.mpr ⟨[name], List.cons_ne_nil _ _, rfl⟩
  · simp [isBelow]

/-- The files below a directory as a depth-first walk meets them, relative to it. -/
def walk (tree : FileTree) (directory : Location) : List Location :=
  (tree.sortedNamesIn directory).flatMap fun name =>
    match _stands : tree.standsAt? (directory ++ [name]) with
    | some (.file _) => [[name]]
    | some .directory => (walk tree (directory ++ [name])).map (name :: ·)
    | none => []
termination_by (tree.entriesBelow directory).length
decreasing_by exact length_entriesBelow_lt _stands

/-- What a walk meets under a name. -/
def walkAt (tree : FileTree) (directory : Location) (name : String) : List Location :=
  match tree.standsAt? (directory ++ [name]) with
  | some (.file _) => [[name]]
  | some .directory => (tree.walk (directory ++ [name])).map (name :: ·)
  | none => []

theorem walk_eq (tree : FileTree) (directory : Location) :
    tree.walk directory = (tree.sortedNamesIn directory).flatMap (tree.walkAt directory) := by
  rw [walk]
  congr 1
  funext name
  rw [walkAt]
  split <;> split <;> simp_all

theorem mem_sortedNamesIn {tree : FileTree} {directory : Location} {name : String} :
    name ∈ tree.sortedNamesIn directory ↔ ∃ entry, (directory ++ [name], entry) ∈ tree.entries := by
  rw [sortedNamesIn, List.mem_mergeSort, namesIn, List.mem_filterMap]
  constructor
  · rintro ⟨⟨location, entry⟩, listed, found⟩
    exact ⟨entry, nameIn?_eq_some_iff.mp found ▸ listed⟩
  · rintro ⟨entry, listed⟩
    exact ⟨_, listed, nameIn?_eq_some_iff.mpr rfl⟩

theorem exists_cons_of_mem_walkAt {tree : FileTree} {directory names : Location} {name : String}
    (met : names ∈ tree.walkAt directory name) : ∃ rest, names = name :: rest := by
  rw [walkAt] at met
  split at met
  · exact ⟨[], List.mem_singleton.mp met⟩
  · obtain ⟨rest, _, rfl⟩ := List.mem_map.mp met
    exact ⟨rest, rfl⟩
  · cases met

theorem mem_walk_iff {tree : FileTree} {directory names : Location} :
    names ∈ tree.walk directory ↔
      ∃ name ∈ tree.sortedNamesIn directory, names ∈ tree.walkAt directory name := by
  rw [walk_eq, List.mem_flatMap]

theorem cons_mem_walk_iff {tree : FileTree} {directory rest : Location} {name : String} :
    name :: rest ∈ tree.walk directory ↔ name :: rest ∈ tree.walkAt directory name := by
  rw [mem_walk_iff]
  constructor
  · rintro ⟨other, _, met⟩
    obtain ⟨_, shape⟩ := exists_cons_of_mem_walkAt met
    cases shape
    exact met
  · intro met
    refine ⟨name, mem_sortedNamesIn.mpr ?_, met⟩
    rw [walkAt] at met
    split at met
    · exact ⟨_, mem_of_standsAt? (by simp) ‹_›⟩
    · exact ⟨_, mem_of_standsAt? (by simp) ‹_›⟩
    · cases met

namespace Proper

variable {tree : FileTree} (proper : tree.Proper)

include proper

/-- A walk meets exactly the files below its directory. -/
theorem mem_walk {directory names : Location}
    (isDirectory : tree.standsAt? directory = some .directory) :
    names ∈ tree.walk directory ↔ tree.IsFileAt (directory ++ names) := by
  induction names generalizing directory with
  | nil =>
      rw [List.append_nil]
      refine iff_of_false (fun met => ?_) fun isFile => isFile.not_directory isDirectory
      obtain ⟨name, _, metAt⟩ := mem_walk_iff.mp met
      obtain ⟨rest, shape⟩ := exists_cons_of_mem_walkAt metAt
      cases shape
  | cons name rest induction =>
      rw [cons_mem_walk_iff, walkAt, List.append_cons directory name rest]
      have onTheWay : rest ≠ [] → tree.IsFileAt (directory ++ [name] ++ rest) →
          tree.standsAt? (directory ++ [name]) = some .directory := by
        rintro further ⟨content, stands⟩
        exact proper.isDirectory_of_append further (by rw [stands]; rfl)
      split
      · rename_i content stands
        rw [List.mem_singleton, List.cons.injEq, and_iff_right rfl]
        constructor
        · rintro rfl
          exact ⟨content, by rwa [List.append_nil]⟩
        · intro isFile
          by_contra further
          rw [onTheWay further isFile] at stands
          cases stands
      · rename_i stands
        rw [List.mem_map_of_injective fun _ _ => List.tail_eq_of_cons_eq]
        exact induction stands
      · rename_i absent
        refine iff_of_false List.not_mem_nil fun isFile => ?_
        by_cases last : rest = []
        · obtain ⟨content, stands⟩ := isFile
          rw [last, List.append_nil, absent] at stands
          cases stands
        · rw [onTheWay last isFile] at absent
          cases absent

theorem nodup_namesIn (directory : Location) : (tree.namesIn directory).Nodup := by
  have distinct : tree.entries.Pairwise (fun left right => left.1 ≠ right.1) :=
    List.pairwise_map.mp proper.distinct
  refine distinct.filterMap _ ?_
  intro left right different name inLeft other inRight same
  rw [nameIn?_eq_some_iff.mp inLeft, nameIn?_eq_some_iff.mp inRight, same] at different
  exact different rfl

theorem pairwise_sortedNamesIn (directory : Location) :
    (tree.sortedNamesIn directory).Pairwise fun left right =>
      Utf8.encode left < Utf8.encode right := by
  have ordered : (tree.sortedNamesIn directory).Pairwise fun left right =>
      decide (Utf8.encode left ≤ Utf8.encode right) = true := by
    refine List.pairwise_mergeSort ?_ ?_ _
    · simp only [decide_eq_true_eq, Utf8.encode_le_encode_iff]
      exact fun _ _ _ => le_trans
    · simp only [Bool.or_eq_true, decide_eq_true_eq, Utf8.encode_le_encode_iff]
      exact le_total
  have distinct : (tree.sortedNamesIn directory).Nodup :=
    (List.mergeSort_perm _ _).nodup_iff.mpr (proper.nodup_namesIn directory)
  refine (ordered.and distinct).imp ?_
  rintro left right ⟨least, different⟩
  rw [decide_eq_true_eq, Utf8.encode_le_encode_iff] at least
  exact Utf8.encode_lt_encode (lt_of_le_of_ne least different)

theorem pairwise_walk (directory : Location) : (tree.walk directory).Pairwise Precedes := by
  induction directory using walk.induct tree with
  | case1 directory induction =>
      rw [walk_eq, List.pairwise_flatMap]
      constructor
      · intro name _
        rw [walkAt]
        split
        · exact List.pairwise_singleton _ _
        · rename_i stands
          exact List.pairwise_map.mpr ((induction name stands).imp List.Lex.cons)
        · exact List.Pairwise.nil
      · refine (proper.pairwise_sortedNamesIn directory).imp ?_
        intro left right less first inLeft second inRight
        obtain ⟨_, rfl⟩ := exists_cons_of_mem_walkAt inLeft
        obtain ⟨_, rfl⟩ := exists_cons_of_mem_walkAt inRight
        exact List.Lex.rel less

/-- A listing is what a depth-first walk meets. -/
theorem walk_eq_fileLocations {directory : Location}
    (isDirectory : tree.standsAt? directory = some .directory) :
    tree.walk directory = tree.fileLocations directory := by
  have permutation : (tree.walk directory).Perm (tree.fileLocations directory) := by
    refine (List.perm_ext_iff_of_nodup ((proper.pairwise_walk directory).imp Precedes.ne)
      (proper.nodup_fileLocations directory)).mpr fun names => ?_
    rw [proper.mem_walk isDirectory, proper.mem_fileLocations]
  exact permutation.eq_of_pairwise (fun _ _ _ _ => comesBefore_antisymm)
    ((proper.pairwise_walk directory).imp Precedes.comesBefore)
    (pairwise_fileLocations tree directory)

end Proper

end ScriptRegistrar.FileTree
