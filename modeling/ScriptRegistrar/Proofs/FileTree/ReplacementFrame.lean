import ScriptRegistrar.Proofs.FileTree.Restoring

/-!
# What a replacement leaves alone

A replacement has two locations of its own, that of the file and that of its backup.  Everything
else stands as before when it is over, whatever the writer did at its path, and after a failed
write so does the file.  Nothing is left at the location of the backup: what stood there is
overwritten when the file moves, and goes when the backup does.
-/

namespace ScriptRegistrar

open Text

namespace FileTree

variable {tree : FileTree} {location : Location}

theorem Proper.standsAt?_below (proper : tree.Proper)
    (notDirectory : tree.standsAt? location ≠ some .directory) {place : Location}
    (below : location <+: place) (different : place ≠ location) :
    tree.standsAt? place = none := by
  obtain ⟨names, rfl⟩ := below
  have nonempty : names ≠ [] := by
    rintro rfl
    exact different (List.append_nil _)
  rw [← Option.not_isSome_iff_eq_none]
  exact fun stands => notDirectory (proper.isDirectory_of_append nonempty stands)

end FileTree

namespace Replacement

open FileTree

/-- Whether a writer leaves what a file system can hold, and changes nothing but what stands at its
path and below it. -/
structure ActsOnlyOn (writer : Writer) (path : Path) : Prop where
  keepsTo : KeepsTo writer path
  proper : ∀ tree : FileTree, tree.Proper → (writer path tree).tree.Proper

theorem actsOnlyOn_textWriter (text : String) (path : Path) :
    ActsOnlyOn (textWriter text) path := by
  refine ⟨keepsTo_textWriter text path, fun tree proper => ?_⟩
  unfold textWriter
  split
  · rename_i written wrote
    exact (changesOnly_of_write proper wrote).1.proper
  · exact proper

theorem actsOnlyOn_abortedWriter (text : String) (path : Path) :
    ActsOnlyOn (abortedWriter text) path :=
  ⟨keepsTo_abortedWriter text path, (actsOnlyOn_textWriter text path).proper⟩

variable {writer : Writer} {tree moved left : FileTree} {path : Path} {location : Location}
  {content : Bytes}

theorem replaceWith_eq_of_done (renamed : tree.rename path (backupPath path) = .ok moved)
    {reserve : Location} (spare : NamesEntry left (backupPath path) reserve)
    (spareStands : left.standsAt? reserve = some (.file content))
    (done : writer path moved = ⟨left, none⟩) :
    replaceWith writer path tree = ⟨left.erase reserve, none⟩ := by
  have removes := spare.removeFile_eq
  simp only [spareStands] at removes
  simp only [replaceWith, renamed, done, attempt, removes]

theorem replaceWith_eq_of_failed (renamed : tree.rename path (backupPath path) = .ok moved)
    {cause : FileFailure} (failed : writer path moved = ⟨left, some cause⟩) :
    replaceWith writer path tree = restore path left cause := by
  simp only [replaceWith, renamed, failed]

/-- Whether a file has moved to its backup in `moved`, so that the writer finds its path free and
leaves the backup and all that is not its own as it was. -/
structure MidwayAt (writer : Writer) (path : Path) (tree moved : FileTree) (location : Location)
    (content : Bytes) : Prop where
  renamed : tree.rename path (backupPath path) = .ok moved
  names : NamesEntry (writer path moved).tree path location
  spare : NamesEntry (writer path moved).tree (backupPath path) (backupOf location)
  spareStands : (writer path moved).tree.standsAt? (backupOf location) = some (.file content)
  proper : (writer path moved).tree.Proper
  workingDirectory : (writer path moved).tree.workingDirectory = tree.workingDirectory
  outside : ∀ place, ¬ location <+: place → place ≠ backupOf location →
    (writer path moved).tree.standsAt? place = tree.standsAt? place

theorem exists_midwayAt (proper : tree.Proper) (located : tree.locate path = .ok location)
    (stands : tree.standsAt? location = some (.file content))
    (fits : BackupFits tree path location) (acts : ActsOnlyOn writer path) :
    ∃ moved, MidwayAt writer path tree moved location content := by
  obtain ⟨moved, renamed, names, spare, spareStands, outside⟩ :=
    backup_of_keepsTo proper located stands fits acts.keepsTo
  obtain ⟨other, renamedToo, changes, _⟩ := rename_of_fits proper located stands fits
  obtain rfl : other = moved := Except.ok.inj (renamedToo.symm.trans renamed)
  exact ⟨other, renamed, names, spare, spareStands, acts.proper other changes.proper,
    (acts.keepsTo other).workingDirectory.trans changes.same.workingDirectory, outside⟩

namespace MidwayAt

variable (midway : MidwayAt writer path tree moved location content)

include midway

theorem of_done (done : (writer path moved).failure = none) :
    replaceWith writer path tree =
      ⟨(writer path moved).tree.erase (backupOf location), none⟩ :=
  replaceWith_eq_of_done midway.renamed midway.spare midway.spareStands (by rw [← done])

theorem of_failed (proper : tree.Proper)
    (stands : tree.standsAt? location = some (.file content)) {cause : FileFailure}
    (failed : (writer path moved).failure = some cause) :
    (∃ restored, replaceWith writer path tree = ⟨restored, some (.write path cause)⟩ ∧
      restored.workingDirectory = tree.workingDirectory ∧
        restored.standsAt? (backupOf location) = none ∧
          ∀ place, place ≠ backupOf location →
            restored.standsAt? place = tree.standsAt? place) ∨
    ∃ restoring, replaceWith writer path tree = ⟨(writer path moved).tree,
      some (.restore path (backupPath path) cause restoring)⟩ := by
  rw [replaceWith_eq_of_failed midway.renamed
    (show writer path moved = ⟨(writer path moved).tree, some cause⟩ by rw [← failed])]
  by_cases directory : (writer path moved).tree.standsAt? location = some .directory
  · exact Or.inr ⟨_, restore_of_directory midway.names midway.spare midway.spareStands cause
      directory⟩
  · obtain ⟨restored, restores, same, back, gone, elsewhere⟩ :=
      restore_of_not_directory midway.names midway.spare midway.spareStands cause
        (backupOf_ne midway.names.ne_nil) directory
    refine Or.inl ⟨restored, restores,
      same.workingDirectory.trans midway.workingDirectory, gone, ?_⟩
    intro place notSpare
    by_cases here : place = location
    · rw [here, back, stands]
    · rw [elsewhere place here notSpare]
      by_cases below : location <+: place
      · -- The path held a file before, and the writer left no directory there.
        rw [midway.proper.standsAt?_below directory below here,
          proper.standsAt?_below (by simp [stands]) below here]
      · exact midway.outside place below notSpare

end MidwayAt

/-- A replacement touches nothing but its file and the location of its backup.  If it succeeds,
everything else stands as before; if the writer failed and the old content is back, so does the
file.  In both cases nothing is left at the location of the backup. -/
theorem replaceWith_frame (proper : tree.Proper) (reads : tree.read path = .ok content)
    (acts : ActsOnlyOn writer path) :
    let here := tree.statedLocation path
    let reserve := tree.statedLocation (backupPath path)
    let outcome := replaceWith writer path tree
    (outcome.failure = none →
      outcome.tree.workingDirectory = tree.workingDirectory ∧
        outcome.tree.standsAt? reserve = none ∧
          (∀ place, ¬ here <+: place → place ≠ reserve →
            outcome.tree.standsAt? place = tree.standsAt? place) ∧
            ∀ place entry, place ≠ here → place ≠ reserve → tree.standsAt? place = some entry →
              outcome.tree.standsAt? place = some entry) ∧
    ∀ failed cause, outcome.failure = some (.write failed cause) →
      outcome.tree.workingDirectory = tree.workingDirectory ∧
        outcome.tree.standsAt? reserve = none ∧
          ∀ place, place ≠ reserve → outcome.tree.standsAt? place = tree.standsAt? place := by
  intro here reserve outcome
  obtain ⟨location, located, stands⟩ := read_eq_ok_iff.mp reads
  have names := NamesEntry.of_locate proper located (by simp [stands])
  have atHere : here = location := names.statedLocation_eq
  by_cases fits : BackupFits tree path location
  · have atReserve : reserve = backupOf location := (names.backup fits).statedLocation_eq
    obtain ⟨moved, midway⟩ := exists_midwayAt proper located stands fits acts
    rw [atHere, atReserve]
    cases failure : (writer path moved).failure with
    | none =>
        have ends : outcome = _ := midway.of_done failure
        have outside : ∀ place, ¬ location <+: place → place ≠ backupOf location →
            outcome.tree.standsAt? place = tree.standsAt? place := by
          intro place notBelow notSpare
          rw [ends, standsAt?_erase_of_ne _ notSpare, midway.outside place notBelow notSpare]
        refine ⟨fun _ => ⟨?_, ?_, outside, ?_⟩, ?_⟩
        · rw [ends]
          exact midway.workingDirectory
        · rw [ends, standsAt?_erase_self _ midway.spare.ne_nil]
        · intro place entry notHere notSpare standsThere
          rw [outside place _ notSpare, standsThere]
          intro below
          rw [proper.standsAt?_below (by simp [stands]) below notHere] at standsThere
          cases standsThere
        · intro failed cause isWrite
          rw [ends] at isWrite
          cases isWrite
    | some cause =>
        rcases midway.of_failed proper stands failure with
          ⟨restored, ends, workingDirectory, gone, same⟩ | ⟨restoring, ends⟩
        · have ends : outcome = _ := ends
          rw [ends]
          exact ⟨fun succeeded => (by cases succeeded),
            fun _ _ _ => ⟨workingDirectory, gone, same⟩⟩
        · have ends : outcome = _ := ends
          rw [ends]
          exact ⟨fun succeeded => (by cases succeeded), fun _ _ isWrite => by cases isWrite⟩
  · obtain ⟨failure, fails⟩ := rename_fails_of_misfits names stands fits
    have ends : outcome = ⟨tree, some (.backup path failure)⟩ := by
      simp only [outcome, replaceWith, fails]
    rw [ends]
    exact ⟨fun succeeded => (by cases succeeded), fun _ _ isWrite => by cases isWrite⟩

/-- A file beside which no backup stands is back as it was, and so is all else. -/
theorem replaceWith_frame_door :
    let tree : FileTree :=
      ⟨[(["Door.h"], .file [111, 108, 100]), (["Door.h.old"], .file [98])], []⟩
    let outcome := replaceWith (abortedWriter "ne") ⟨"/Door.h"⟩ tree
    outcome.failure = some (.write ⟨"/Door.h"⟩ (.refused "disk full")) ∧
      ∀ place, outcome.tree.standsAt? place = tree.standsAt? place := by
  intro tree outcome
  have failed : outcome.failure = some (.write ⟨"/Door.h"⟩ (.refused "disk full")) := by
    decide +kernel
  have proper : tree.Proper := by decide +kernel
  have reads : tree.read ⟨"/Door.h"⟩ = .ok [111, 108, 100] := by decide +kernel
  have free : tree.standsAt? (tree.statedLocation (backupPath ⟨"/Door.h"⟩)) = none := by
    decide +kernel
  obtain ⟨_, gone, same⟩ :=
    (replaceWith_frame proper reads (actsOnlyOn_abortedWriter "ne" _)).2 _ _ failed
  refine ⟨failed, fun place => ?_⟩
  by_cases spare : place = tree.statedLocation (backupPath ⟨"/Door.h"⟩)
  · rw [spare, free, gone]
  · exact same place spare

/-- A file that stands where the backup is to go is lost, whether the writer is done or fails. -/
theorem replaceWith_loses_reserve :
    let tree : FileTree :=
      ⟨[(["Door.h"], .file [111, 108, 100]), (["Door.h.bak"], .file [98])], []⟩
    let done := replaceWith (textWriter "new") ⟨"/Door.h"⟩ tree
    let undone := replaceWith (abortedWriter "ne") ⟨"/Door.h"⟩ tree
    tree.Proper ∧ tree.read ⟨"/Door.h"⟩ = .ok [111, 108, 100] ∧
      tree.read ⟨"/Door.h.bak"⟩ = .ok [98] ∧
        (ActsOnlyOn (textWriter "new") ⟨"/Door.h"⟩ ∧ done.failure = none ∧
          done.tree.standsAt? ["Door.h.bak"] = none) ∧
        ActsOnlyOn (abortedWriter "ne") ⟨"/Door.h"⟩ ∧
          undone.failure = some (.write ⟨"/Door.h"⟩ (.refused "disk full")) ∧
            undone.tree.standsAt? ["Door.h.bak"] = none := by
  refine ⟨by decide +kernel, by decide +kernel, by decide +kernel,
    ⟨actsOnlyOn_textWriter _ _, by decide +kernel, by decide +kernel⟩,
    actsOnlyOn_abortedWriter _ _, by decide +kernel, by decide +kernel⟩

end Replacement

end ScriptRegistrar
