import Mathlib.Data.String.Basic
import ScriptRegistrar.FileTree.Listing
import ScriptRegistrar.Proofs.FileTree.Proper

/-!
# What a listing holds

The files below a directory are listed each once and in the one order there is of their locations,
so that a listing depends on nothing but which files there are.
-/

namespace ScriptRegistrar.FileTree

theorem comesBefore_total (left right : Location) :
    (comesBefore left right || comesBefore right left) = true := by
  induction left generalizing right with
  | nil => simp [comesBefore]
  | cons first rest induction =>
      cases right with
      | nil => simp [comesBefore]
      | cons second others =>
          by_cases same : first = second
          · simpa [comesBefore, same] using induction others
          · rcases lt_or_gt_of_ne same with less | greater
            · simp [comesBefore, same, less]
            · simp [comesBefore, Ne.symm same, greater]

theorem comesBefore_trans {first second third : Location}
    (left : comesBefore first second = true) (right : comesBefore second third = true) :
    comesBefore first third = true := by
  induction first generalizing second third with
  | nil => rw [comesBefore]
  | cons low lows induction =>
      cases second with
      | nil => cases left
      | cons middle middles =>
          cases third with
          | nil => cases right
          | cons high highs =>
              rw [comesBefore] at left right ⊢
              by_cases lowMiddle : low = middle
              · subst lowMiddle
                rw [if_pos rfl] at left
                by_cases middleHigh : low = high
                · rw [if_pos middleHigh] at right ⊢
                  exact induction left right
                · rwa [if_neg middleHigh] at right ⊢
              · rw [if_neg lowMiddle, decide_eq_true_eq] at left
                by_cases middleHigh : middle = high
                · rw [← middleHigh, if_neg lowMiddle]
                  exact decide_eq_true left
                · rw [if_neg middleHigh, decide_eq_true_eq] at right
                  have further := lt_trans left right
                  rw [if_neg (ne_of_lt further)]
                  exact decide_eq_true further

theorem comesBefore_antisymm {left right : Location} (forward : comesBefore left right = true)
    (backward : comesBefore right left = true) : left = right := by
  induction left generalizing right with
  | nil =>
      cases right with
      | nil => rfl
      | cons second others => cases backward
  | cons first rest induction =>
      cases right with
      | nil => cases forward
      | cons second others =>
          rw [comesBefore] at forward backward
          by_cases same : first = second
          · rw [if_pos same] at forward
            rw [if_pos same.symm] at backward
            rw [same, induction forward backward]
          · rw [if_neg same, decide_eq_true_eq] at forward
            rw [if_neg (Ne.symm same), decide_eq_true_eq] at backward
            exact (lt_asymm forward backward).elim

/-- A listing is in order. -/
theorem pairwise_fileLocations (tree : FileTree) (directory : Location) :
    (tree.fileLocations directory).Pairwise (fun left right => comesBefore left right = true) :=
  @List.pairwise_mergeSort _ comesBefore (fun _ _ _ => comesBefore_trans) comesBefore_total _

/-- Whether a regular file stands at a location. -/
def IsFileAt (tree : FileTree) (location : Location) : Prop :=
  ∃ content, tree.standsAt? location = some (.file content)

theorem IsFileAt.not_directory {tree : FileTree} {location : Location}
    (isFile : tree.IsFileAt location) : tree.standsAt? location ≠ some .directory := by
  obtain ⟨content, stands⟩ := isFile
  simp [stands]

theorem IsFileAt.ne_nil {tree : FileTree} {location : Location}
    (isFile : tree.IsFileAt location) : location ≠ [] := by
  rintro rfl
  exact isFile.not_directory rfl

/-- The name below a directory of a file that is listed. -/
def fileBelow? (directory : Location) (pair : Location × Entry) : Option Location :=
  match pair.2 with
  | .file _ => if directory.isPrefixOf pair.1 then some (pair.1.drop directory.length) else none
  | .directory => none

theorem fileBelow?_eq_some_iff {directory names : Location} {pair : Location × Entry} :
    fileBelow? directory pair = some names ↔
      pair.1 = directory ++ names ∧ ∃ content, pair.2 = .file content := by
  obtain ⟨location, entry⟩ := pair
  cases entry with
  | directory => simp [fileBelow?]
  | file content =>
      simp only [fileBelow?, Entry.file.injEq, exists_eq', and_true]
      constructor
      · intro found
        split at found
        · rename_i isPrefix
          obtain ⟨rest, rfl⟩ := List.isPrefixOf_iff_prefix.mp isPrefix
          simpa using found
        · cases found
      · rintro rfl
        have isPrefix : directory.isPrefixOf (directory ++ names) = true :=
          List.isPrefixOf_iff_prefix.mpr ⟨names, rfl⟩
        rw [if_pos isPrefix, List.drop_left]

theorem fileLocations_eq (tree : FileTree) (directory : Location) :
    tree.fileLocations directory =
      (tree.entries.filterMap (fileBelow? directory)).mergeSort comesBefore :=
  rfl

namespace Proper

variable {tree other : FileTree} (proper : tree.Proper)

include proper

theorem mem_fileLocations {directory names : Location} :
    names ∈ tree.fileLocations directory ↔ tree.IsFileAt (directory ++ names) := by
  rw [fileLocations_eq, List.mem_mergeSort, List.mem_filterMap]
  constructor
  · rintro ⟨⟨location, entry⟩, listed, found⟩
    obtain ⟨rfl, content, rfl⟩ := fileBelow?_eq_some_iff.mp found
    exact ⟨content, proper.standsAt?_of_mem listed⟩
  · rintro ⟨content, stands⟩
    exact ⟨_, mem_of_standsAt? (IsFileAt.ne_nil ⟨content, stands⟩) stands,
      fileBelow?_eq_some_iff.mpr ⟨rfl, content, rfl⟩⟩

theorem nodup_fileLocations (directory : Location) : (tree.fileLocations directory).Nodup := by
  rw [fileLocations_eq, (List.mergeSort_perm _ _).nodup_iff]
  have distinct : tree.entries.Pairwise (fun left right => left.1 ≠ right.1) :=
    List.pairwise_map.mp proper.distinct
  refine distinct.filterMap _ ?_
  intro left right different names inLeft others inRight same
  obtain ⟨leftPlace, _⟩ := fileBelow?_eq_some_iff.mp inLeft
  obtain ⟨rightPlace, _⟩ := fileBelow?_eq_some_iff.mp inRight
  exact different (by rw [leftPlace, rightPlace, same])

/-- Two trees with the same files among those that pass a test list those files alike. -/
theorem filter_fileLocations_eq (otherProper : other.Proper) {directory : Location}
    {test : Location → Bool}
    (same : ∀ names, test names = true →
      (other.IsFileAt (directory ++ names) ↔ tree.IsFileAt (directory ++ names))) :
    (other.fileLocations directory).filter test = (tree.fileLocations directory).filter test := by
  have permutation : (other.fileLocations directory).filter test |>.Perm
      ((tree.fileLocations directory).filter test) := by
    refine (List.perm_ext_iff_of_nodup ((otherProper.nodup_fileLocations directory).filter _)
      ((proper.nodup_fileLocations directory).filter _)).mpr ?_
    intro names
    rw [List.mem_filter, List.mem_filter, otherProper.mem_fileLocations, proper.mem_fileLocations]
    exact and_congr_left (same names)
  exact permutation.eq_of_pairwise (fun _ _ _ _ => comesBefore_antisymm)
    ((pairwise_fileLocations other directory).filter _)
    ((pairwise_fileLocations tree directory).filter _)

end Proper

end ScriptRegistrar.FileTree
