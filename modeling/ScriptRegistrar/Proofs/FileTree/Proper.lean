import Mathlib.Data.List.Nodup
import ScriptRegistrar.Proofs.FileTree.Following

/-!
# Proper trees

In a proper tree no location is listed twice, every entry has a name that a path can state, and
every entry stands in a directory.  Writing a file into a directory and removing one keep a tree
proper and its directories the same.
-/

namespace ScriptRegistrar.FileTree

open Text

/-- A name that a path can state as one piece. -/
structure IsEntryName (name : String) : Prop where
  isNamePiece : IsNamePiece name.toList
  oneName : '/' ∉ name.toList

instance (name : String) : Decidable (IsEntryName name) :=
  decidable_of_iff (IsNamePiece name.toList ∧ '/' ∉ name.toList)
    ⟨fun both => ⟨both.1, both.2⟩, fun isName => ⟨isName.isNamePiece, isName.oneName⟩⟩

/-- Whether a tree is one that a file system can hold. -/
structure Proper (tree : FileTree) : Prop where
  distinct : (tree.entries.map (·.1)).Nodup
  below : ∀ pair ∈ tree.entries, pair.1 ≠ []
  inDirectory : ∀ pair ∈ tree.entries, tree.standsAt? pair.1.dropLast = some .directory
  named : ∀ pair ∈ tree.entries, ∀ name ∈ pair.1, IsEntryName name

instance (tree : FileTree) : Decidable tree.Proper :=
  decidable_of_iff ((tree.entries.map (·.1)).Nodup ∧ (∀ pair ∈ tree.entries, pair.1 ≠ []) ∧
      (∀ pair ∈ tree.entries, tree.standsAt? pair.1.dropLast = some .directory) ∧
        ∀ pair ∈ tree.entries, ∀ name ∈ pair.1, IsEntryName name)
    ⟨fun ⟨distinct, below, inDirectory, named⟩ => ⟨distinct, below, inDirectory, named⟩,
      fun proper => ⟨proper.distinct, proper.below, proper.inDirectory, proper.named⟩⟩

theorem mem_of_standsAt? {tree : FileTree} {location : Location} {entry : Entry}
    (below : location ≠ []) (stands : tree.standsAt? location = some entry) :
    (location, entry) ∈ tree.entries := by
  rw [standsAt?, if_neg below, Option.map_eq_some_iff] at stands
  obtain ⟨⟨other, _⟩, found, rfl⟩ := stands
  have same := List.find?_some found
  simp only [decide_eq_true_eq] at same
  exact same ▸ List.mem_of_find?_eq_some found

theorem standsAt?_eq_some_iff {tree : FileTree} (distinct : (tree.entries.map (·.1)).Nodup)
    {location : Location} {entry : Entry} (below : location ≠ []) :
    tree.standsAt? location = some entry ↔ (location, entry) ∈ tree.entries := by
  refine ⟨mem_of_standsAt? below, fun listed => ?_⟩
  rw [standsAt?, if_neg below]
  have unique : ∀ pair ∈ tree.entries, pair.1 = location → pair = (location, entry) :=
    fun pair member same => List.inj_on_of_nodup_map distinct member listed same
  cases found : tree.entries.find? (·.1 = location) with
  | none =>
      have absent := List.find?_eq_none.mp found _ listed
      simp at absent
  | some pair =>
      have same := List.find?_some found
      simp only [decide_eq_true_eq] at same
      rw [unique pair (List.mem_of_find?_eq_some found) same]
      rfl

/-- What stands where does not depend on the order in which the entries are listed. -/
theorem standsAt?_of_perm {tree other : FileTree} (distinct : (tree.entries.map (·.1)).Nodup)
    (sameEntries : other.entries.Perm tree.entries) (location : Location) :
    other.standsAt? location = tree.standsAt? location := by
  by_cases below : location = []
  · rw [below]
    rfl
  · have otherDistinct := (sameEntries.map (·.1)).nodup_iff.mpr distinct
    refine Option.ext fun entry => ?_
    rw [standsAt?_eq_some_iff otherDistinct below, standsAt?_eq_some_iff distinct below]
    exact sameEntries.mem_iff

namespace Proper

variable {tree : FileTree} (proper : tree.Proper)

include proper

theorem standsAt?_of_mem {location : Location} {entry : Entry}
    (listed : (location, entry) ∈ tree.entries) : tree.standsAt? location = some entry :=
  (standsAt?_eq_some_iff proper.distinct (proper.below _ listed)).mpr listed

theorem standsAt?_dropLast {location : Location}
    (stands : (tree.standsAt? location).isSome = true) :
    tree.standsAt? location.dropLast = some .directory := by
  by_cases below : location = []
  · rw [below]
    rfl
  · obtain ⟨entry, found⟩ := Option.isSome_iff_exists.mp stands
    exact proper.inDirectory _ (mem_of_standsAt? below found)

theorem isEntryName {location : Location} (stands : (tree.standsAt? location).isSome = true) :
    ∀ name ∈ location, IsEntryName name := by
  by_cases below : location = []
  · simp [below]
  · obtain ⟨entry, found⟩ := Option.isSome_iff_exists.mp stands
    exact proper.named _ (mem_of_standsAt? below found)

theorem of_perm {other : FileTree} (sameEntries : other.entries.Perm tree.entries) :
    other.Proper := by
  refine ⟨(sameEntries.map (·.1)).nodup_iff.mpr proper.distinct,
    fun pair member => proper.below pair (sameEntries.mem_iff.mp member), ?_,
    fun pair member => proper.named pair (sameEntries.mem_iff.mp member)⟩
  intro pair member
  rw [standsAt?_of_perm proper.distinct sameEntries]
  exact proper.inDirectory pair (sameEntries.mem_iff.mp member)

/-- A file can be written into a directory where no directory stands. -/
theorem set_file {parent : Location} {name : String} (content : Bytes)
    (inDirectory : tree.standsAt? parent = some .directory) (isName : IsEntryName name)
    (notDirectory : tree.standsAt? (parent ++ [name]) ≠ some .directory) :
    (tree.set (parent ++ [name]) (.file content)).Proper := by
  have outside : ∀ pair ∈ tree.entries.filter (·.1 ≠ parent ++ [name]),
      pair ∈ tree.entries ∧ pair.1 ≠ parent ++ [name] := by
    intro pair member
    simpa using List.mem_filter.mp member
  constructor
  case distinct =>
    rw [set, List.map_cons, List.nodup_cons]
    refine ⟨?_, (List.filter_sublist.map _).nodup proper.distinct⟩
    intro listed
    obtain ⟨pair, member, same⟩ := List.mem_map.mp listed
    exact (outside pair member).2 same
  case below =>
    intro pair member
    rcases List.mem_cons.mp member with rfl | other
    · simp
    · exact proper.below pair (outside pair other).1
  case inDirectory =>
    intro pair member
    rcases List.mem_cons.mp member with rfl | other
    · rw [List.dropLast_concat, standsAt?_set_of_ne _ _ (by simp)]
      exact inDirectory
    · have directory := proper.inDirectory pair (outside pair other).1
      rw [standsAt?_set_of_ne]
      · exact directory
      · exact fun same => notDirectory (same ▸ directory)
  case named =>
    intro pair member
    rcases List.mem_cons.mp member with rfl | other
    · intro candidate inLocation
      rcases List.mem_append.mp inLocation with inParent | last
      · exact proper.isEntryName (by rw [inDirectory]; rfl) candidate inParent
      · rwa [List.mem_singleton.mp last]
    · exact proper.named pair (outside pair other).1

theorem erase {location : Location} (notDirectory : tree.standsAt? location ≠ some .directory) :
    (tree.erase location).Proper := by
  have kept : ∀ pair ∈ (tree.erase location).entries, pair ∈ tree.entries :=
    fun pair member => (List.mem_filter.mp member).1
  refine ⟨(List.filter_sublist.map _).nodup proper.distinct, fun pair member =>
    proper.below pair (kept pair member), ?_, fun pair member => proper.named pair (kept pair member)⟩
  intro pair member
  have directory := proper.inDirectory pair (kept pair member)
  rw [standsAt?_erase_of_ne]
  · exact directory
  · exact fun same => notDirectory (same ▸ directory)

end Proper

theorem sameDirectories_set_file {tree : FileTree} {location : Location} (content : Bytes)
    (notDirectory : tree.standsAt? location ≠ some .directory) :
    SameDirectories tree (tree.set location (.file content)) := by
  refine ⟨rfl, fun other => ?_⟩
  by_cases same : other = location
  · have below : location ≠ [] := by
      rintro rfl
      exact notDirectory rfl
    rw [same, standsAt?_set_self _ _ below]
    simp [notDirectory]
  · rw [standsAt?_set_of_ne _ _ same]

theorem sameDirectories_erase {tree : FileTree} {location : Location}
    (notDirectory : tree.standsAt? location ≠ some .directory) :
    SameDirectories tree (tree.erase location) := by
  refine ⟨rfl, fun other => ?_⟩
  by_cases same : other = location
  · have below : location ≠ [] := by
      rintro rfl
      exact notDirectory rfl
    rw [same, standsAt?_erase_self _ below]
    simp [notDirectory]
  · rw [standsAt?_erase_of_ne _ same]

end ScriptRegistrar.FileTree
