import Mathlib.Data.List.Induction
import ScriptRegistrar.Proofs.FileTree.Replacing

/-!
# Trees that agree

Two trees that differ in some files alone agree on every operation that does not ask for those
files: it has the same result in both, and if it fails it fails for the same reason.  What differs
afterwards differed before.
-/

namespace ScriptRegistrar.FileTree

open Text

variable {tree other : FileTree} {touched : List Location} {path : Path}

theorem Proper.changesOnly_of_perm (proper : tree.Proper)
    (sameEntries : other.entries.Perm tree.entries)
    (sameWorking : other.workingDirectory = tree.workingDirectory) :
    ChangesOnly [] tree other := by
  have stands := standsAt?_of_perm proper.distinct sameEntries
  exact ⟨proper.of_perm sameEntries, ⟨sameWorking, fun location => by rw [stands]⟩,
    fun location _ => stands location⟩

theorem ChangesOnly.step {written rewritten : FileTree} {changed : List Location}
    (changes : ChangesOnly touched tree other) (first : ChangesOnly changed tree written)
    (second : ChangesOnly changed other rewritten)
    (alike : ∀ location ∈ changed,
      location ∉ touched → rewritten.standsAt? location = written.standsAt? location) :
    ChangesOnly touched written rewritten := by
  refine ⟨second.proper, (first.same.symm.trans changes.same).trans second.same, ?_⟩
  intro location outside
  by_cases inside : location ∈ changed
  · exact alike location inside outside
  · rw [second.outside location inside, changes.outside location outside,
      first.outside location inside]

theorem read_congr (sameLocate : other.locate path = tree.locate path)
    (sameStands : ∀ location, tree.locate path = .ok location →
      other.standsAt? location = tree.standsAt? location) : other.read path = tree.read path := by
  rw [read, read, sameLocate]
  cases found : tree.locate path with
  | error failure => rfl
  | ok location => simp only [bind, Except.bind, sameStands location found]

section

variable (changes : ChangesOnly [] tree other)

include changes

theorem follow_eq_of_changesOnly (location : Location) (pieces : List (List Char)) :
    other.follow location pieces = tree.follow location pieces := by
  have stands : ∀ location, other.standsAt? location = tree.standsAt? location :=
    fun location => changes.outside location List.not_mem_nil
  induction pieces generalizing location with
  | nil => rfl
  | cons piece rest induction => simp only [follow, stands, induction]

theorem read_eq_of_changesOnly (path : Path) : other.read path = tree.read path := by
  apply read_congr
  · rw [locate, locate, changes.same.origin, follow_eq_of_changesOnly changes]
  · exact fun location _ => changes.outside location List.not_mem_nil

end

theorem Proper.isDirectory_of_append (proper : tree.Proper) {location names : Location}
    (nonempty : names ≠ []) (stands : (tree.standsAt? (location ++ names)).isSome = true) :
    tree.standsAt? location = some .directory := by
  induction names using List.reverseRecOn with
  | nil => exact (nonempty rfl).elim
  | append_singleton others name induction =>
      rw [← List.append_assoc] at stands
      have directory := proper.standsAt?_dropLast stands
      rw [List.dropLast_concat] at directory
      by_cases last : others = []
      · rwa [last, List.append_nil] at directory
      · exact induction last (by rw [directory]; rfl)

/-- Names lead to the same entry in two trees with the same directories, or fail alike. -/
theorem follow_names_eq (proper : tree.Proper) (otherProper : other.Proper)
    (same : SameDirectories tree other) {location names : Location}
    (areNames : ∀ name ∈ names, IsEntryName name)
    (stands : (tree.standsAt? (location ++ names)).isSome = true)
    (otherStands : (other.standsAt? (location ++ names)).isSome = true) :
    other.follow location (names.map String.toList) =
      tree.follow location (names.map String.toList) := by
  induction names generalizing location with
  | nil => rfl
  | cons name rest induction =>
      obtain ⟨isName, others⟩ := List.forall_mem_cons.mp areNames
      have directory := proper.isDirectory_of_append (List.cons_ne_nil name rest) stands
      have split : ∀ tree : FileTree, tree.standsAt? location = some .directory →
          tree.follow location ((name :: rest).map String.toList) =
            (if nameLimit < byteLength name.toList then .error .nameTooLong
            else if (tree.standsAt? (location ++ [name])).isSome then
              .ok (location ++ [name])
            else .error .notFound : Except FileFailure Location).bind fun inner =>
              tree.follow inner (rest.map String.toList) := by
        intro tree directory
        rw [List.map_cons, ← List.singleton_append, follow_append,
          follow_singleton isName.isNamePiece directory, String.ofList_toList]
      have passes : ∀ {tree : FileTree}, tree.Proper →
          (tree.standsAt? (location ++ name :: rest)).isSome = true →
            (tree.standsAt? (location ++ [name])).isSome = true := by
        intro tree proper stands
        rw [← List.singleton_append, ← List.append_assoc] at stands
        cases rest with
        | nil => rwa [List.append_nil] at stands
        | cons next more =>
            rw [proper.isDirectory_of_append (List.cons_ne_nil next more) stands]
            rfl
      rw [split tree directory, split other ((same.directory _).mpr directory),
        if_pos (passes proper stands), if_pos (passes otherProper otherStands)]
      by_cases long : nameLimit < byteLength name.toList
      · rw [if_pos long]
        rfl
      · rw [if_neg long]
        refine induction others ?_ ?_
        · rwa [List.append_assoc, List.singleton_append]
        · rwa [List.append_assoc, List.singleton_append]

theorem rename_backup_eq (same : SameDirectories tree other) {parent : Location}
    {last : List Char} {content left : Bytes} (named : NamedParts tree path parent last [])
    (short : byteLength last ≤ nameLimit)
    (stands : tree.standsAt? (parent ++ [String.ofList last]) = some (.file content))
    (otherStands : other.standsAt? (parent ++ [String.ofList last]) = some (.file left))
    (misfits : ¬ BackupFits tree path (parent ++ [String.ofList last])) :
    ∃ failure, tree.rename path (Replacement.backupPath path) = .error failure ∧
      other.rename path (Replacement.backupPath path) = .error failure := by
  have otherNamed := named.of_sameDirectories same
  cases checked : checkPath (Replacement.backupPath path) with
  | error failure =>
      have refused : ∀ tree : FileTree,
          tree.target (Replacement.backupPath path) = .error failure := by
        intro tree
        simp [target, checked, bind, Except.bind]
      refine ⟨failure, ?_, ?_⟩
      · simp [rename, named.target_eq, refused, bind, Except.bind]
      · simp [rename, otherNamed.target_eq, refused, bind, Except.bind]
  | ok done =>
      obtain ⟨failure, fails⟩ := rename_backup_fails named short stands misfits
      refine ⟨failure, fails, ?_⟩
      rw [rename_file named (named.backup checked) short stands] at fails
      rw [rename_file otherNamed (otherNamed.backup checked) short otherStands]
      split at fails
      · rename_i long
        rwa [if_pos long]
      · rename_i fits
        rw [if_neg fits]
        split at fails
        · rename_i directory
          rwa [if_pos ((same.directory _).mpr directory)]
        · cases fails

section

variable (proper : tree.Proper) (changes : ChangesOnly touched tree other) {location : Location}
  {content : Bytes} (located : tree.locate path = .ok location)
  (stands : tree.standsAt? location = some (.file content)) (untouched : location ∉ touched)

include proper changes located stands untouched

theorem replace_alike (text : String) :
    (Replacement.replace text path other).failure = (Replacement.replace text path tree).failure ∧
      ChangesOnly touched (Replacement.replace text path tree).tree
        (Replacement.replace text path other).tree := by
  have otherStands := changes.outside location untouched
  rw [stands] at otherStands
  have otherLocated := changes.same.locate located (by rw [otherStands]; rfl)
  by_cases fits : BackupFits tree path location
  · obtain ⟨replaced, replaces, first, here, spare⟩ :=
      replace_of_fits proper located stands fits text
    obtain ⟨rewritten, rewrites, second, otherHere, otherSpare⟩ :=
      replace_of_fits changes.proper otherLocated otherStands (changes.same.backupFits fits) text
    rw [replaces, rewrites]
    refine ⟨rfl, changes.step first second ?_⟩
    intro changed listed _
    rcases List.mem_cons.mp listed with rfl | inBackup
    · rw [here, otherHere]
    · rw [List.mem_singleton.mp inBackup, spare, otherSpare]
  · obtain ⟨last, named, shape, short, _⟩ := namedParts_of_locate proper located (by simp [stands])
    rw [shape] at stands otherStands fits
    obtain ⟨failure, fails, otherFails⟩ :=
      rename_backup_eq changes.same named short stands otherStands fits
    simp only [Replacement.replace, Replacement.replaceWith, fails, otherFails]
    exact ⟨trivial, changes⟩

end

theorem write_of_target {target : Target} (found : tree.target path = .ok target)
    (content : Bytes) :
    tree.write path content =
      if target.asDirectory then .error .isADirectory
      else match target.name with
        | none => .error .isADirectory
        | some name =>
          if nameLimit < byteLength name.toList then .error .nameTooLong
          else if tree.standsAt? (target.parent ++ [name]) = some .directory then
            .error .isADirectory
          else .ok (tree.set (target.parent ++ [name]) (.file content)) := by
  obtain ⟨parent, name?, asDirectory⟩ := target
  cases name? with
  | none => simp [write, found, lookup, bind, Except.bind]
  | some name =>
      by_cases long : nameLimit < byteLength name.toList
      · simp [write, found, lookup, long, bind, Except.bind]
      · simp [write, found, lookup, long, bind, Except.bind]

/-- A file is written alike in two trees that lead to it alike, whatever it held before. -/
theorem write_alike (proper : tree.Proper)
    (changes : ChangesOnly [tree.statedLocation path] tree other)
    (sameTarget : other.target path = tree.target path) (content : Bytes) :
    (∃ failure, tree.write path content = .error failure ∧
      other.write path content = .error failure) ∨
    ∃ written rewritten, tree.write path content = .ok written ∧
      other.write path content = .ok rewritten ∧ ChangesOnly [] written rewritten := by
  cases wrote : tree.write path content with
  | ok written =>
      have rewrites : ∃ rewritten, other.write path content = .ok rewritten :=
        changes.same.write wrote
      obtain ⟨rewritten, rewrote⟩ := rewrites
      obtain ⟨first, here⟩ := changesOnly_of_write proper wrote
      obtain ⟨second, otherHere⟩ := changesOnly_of_write changes.proper rewrote
      rw [changes.same.statedLocation] at second otherHere
      have alike := changes.step first second fun location listed outside =>
        (outside listed).elim
      refine Or.inr ⟨written, rewritten, rfl, rewrote, alike.proper, alike.same, ?_⟩
      intro location _
      by_cases there : location = tree.statedLocation path
      · rw [there, here, otherHere]
      · exact alike.outside location (by simpa using there)
  | error failure =>
      refine Or.inl ⟨failure, rfl, ?_⟩
      cases found : tree.target path with
      | error cause =>
          simp only [write, found, sameTarget] at wrote ⊢
          exact wrote
      | ok target =>
          rw [write_of_target found] at wrote
          rw [write_of_target (sameTarget.trans found)]
          simp only [changes.same.directory]
          split at wrote
          · rename_i slash
            rwa [if_pos slash]
          · rename_i noSlash
            rw [if_neg noSlash]
            split at wrote
            · exact wrote
            · split at wrote
              · rename_i long
                rwa [if_pos long]
              · rename_i short
                rw [if_neg short]
                split at wrote
                · rename_i directory
                  rwa [if_pos directory]
                · cases wrote

end ScriptRegistrar.FileTree
