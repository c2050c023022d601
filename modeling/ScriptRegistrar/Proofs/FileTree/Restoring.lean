import ScriptRegistrar.Proofs.FileTree.Agreement

/-!
# Replacing a file with any writer

A writer may fail half way and leave anything at its path: nothing, a part of the new content, or
a directory with entries.  The old content waits in the backup meanwhile.  It comes back unless a
directory stands in its way, and then it stays in the backup, so that it is never lost.
-/

namespace ScriptRegistrar

open Text

namespace FileTree

theorem not_isPrefix_backupOf {location : Location} (below : location ≠ []) :
    ¬ location <+: backupOf location := by
  intro isPrefix
  have positive := List.length_pos_iff.mpr below
  refine backupOf_ne below (isPrefix.eq_of_length ?_).symm
  simp only [backupOf, List.length_append, List.length_dropLast, List.length_singleton]
  omega

/-- Whether all that stands in a tree stands in another one as well. -/
structure Extends (tree other : FileTree) : Prop where
  workingDirectory : other.workingDirectory = tree.workingDirectory
  stands : ∀ {location entry}, tree.standsAt? location = some entry →
    other.standsAt? location = some entry

/-- Whether two trees differ at a location and below it alone. -/
structure DiffersWithin (location : Location) (tree other : FileTree) : Prop where
  workingDirectory : other.workingDirectory = tree.workingDirectory
  outside : ∀ place, ¬ location <+: place → other.standsAt? place = tree.standsAt? place

/-- Whether a path names a location, by a name that is not too long. -/
def NamesEntry (tree : FileTree) (path : Path) (location : Location) : Prop :=
  ∃ parent last, NamedParts tree path parent last [] ∧ byteLength last ≤ nameLimit ∧
    location = parent ++ [String.ofList last]

variable {tree other : FileTree} {path : Path} {location : Location} {content : Bytes}

theorem Extends.follow (extended : Extends tree other) {found : Location}
    {pieces : List (List Char)} (followed : tree.follow location pieces = .ok found) :
    other.follow location pieces = .ok found := by
  rw [follow_eq_ok_iff] at followed ⊢
  induction followed with
  | nil location => exact .nil location
  | idle directory isIdle behind induction =>
      exact .idle (extended.stands directory) isIdle induction
  | above directory behind induction => exact .above (extended.stands directory) induction
  | inside directory isName short stands behind induction =>
      obtain ⟨entry, stands⟩ := Option.isSome_iff_exists.mp stands
      exact .inside (extended.stands directory) isName short (by rw [extended.stands stands]; rfl)
        induction

theorem DiffersWithin.extends_of_free (differs : DiffersWithin location tree other)
    (proper : tree.Proper) (free : tree.standsAt? location = none) : Extends tree other := by
  refine ⟨differs.workingDirectory, ?_⟩
  intro place entry stands
  rw [differs.outside place, stands]
  rintro ⟨names, rfl⟩
  cases names with
  | nil => simp [free] at stands
  | cons name rest =>
      have above := proper.isDirectory_of_append (List.cons_ne_nil name rest)
        (Option.isSome_iff_exists.mpr ⟨entry, stands⟩)
      rw [free] at above
      cases above

namespace NamesEntry

theorem of_locate (proper : tree.Proper) (located : tree.locate path = .ok location)
    (notDirectory : tree.standsAt? location ≠ some .directory) : NamesEntry tree path location := by
  obtain ⟨last, named, shape, short, _⟩ := namedParts_of_locate proper located notDirectory
  exact ⟨_, last, named, short, shape⟩

variable (names : NamesEntry tree path location)

include names

theorem ne_nil : location ≠ [] := by
  obtain ⟨parent, last, _, _, rfl⟩ := names
  simp

theorem of_sameDirectories (same : SameDirectories tree other) :
    NamesEntry other path location := by
  obtain ⟨parent, last, named, short, shape⟩ := names
  exact ⟨parent, last, named.of_sameDirectories same, short, shape⟩

theorem of_extends (extended : Extends tree other) : NamesEntry other path location := by
  obtain ⟨parent, last, named, short, shape⟩ := names
  obtain ⟨before, pieces, followed⟩ := named.parts
  have sameOrigin : other.origin path = tree.origin path := by
    rw [origin, origin, extended.workingDirectory]
  exact ⟨parent, last, ⟨named.checked, ⟨before, pieces, sameOrigin ▸ extended.follow followed⟩,
    named.empty, named.isName, extended.stands named.inDirectory⟩, short, shape⟩

theorem statedLocation_eq : tree.statedLocation path = location := by
  obtain ⟨parent, last, named, _, rfl⟩ := names
  exact named.statedLocation_eq

theorem pathExists_eq : tree.pathExists path = (tree.standsAt? location).isSome := by
  obtain ⟨parent, last, named, short, rfl⟩ := names
  obtain ⟨before, pieces, followed⟩ := named.parts
  have found : tree.locate path = tree.follow parent [last] := by
    rw [locate, named.checked, pieces]
    change tree.follow (tree.origin path) (before ++ [last]) = _
    rw [follow_append, followed]
    rfl
  rw [pathExists, found, follow_singleton named.isName named.inDirectory,
    if_neg (Nat.not_lt.mpr short)]
  split
  · rename_i stands
    rw [stands]
    rfl
  · rename_i nothing
    rw [Bool.not_eq_true] at nothing
    rw [nothing]
    rfl

theorem read_eq (stands : tree.standsAt? location = some (.file content)) :
    tree.read path = .ok content := by
  obtain ⟨parent, last, named, short, rfl⟩ := names
  exact read_eq_ok_iff.mpr ⟨_, named.locate short (by rw [stands]; rfl), stands⟩

/-- Only a file is removed. -/
theorem removeFile_eq : tree.removeFile path =
    match tree.standsAt? location with
    | none => .error .notFound
    | some .directory => .error .isADirectory
    | some (.file _) => .ok (tree.erase location) := by
  obtain ⟨parent, last, named, short, rfl⟩ := names
  cases stands : tree.standsAt? (parent ++ [String.ofList last]) with
  | none =>
      simp [removeFile, named.target_eq, lookup_eq, Nat.not_lt.mpr short, stands, bind, Except.bind]
  | some entry =>
      cases entry with
      | directory =>
          simp [removeFile, named.target_eq, lookup_eq, Nat.not_lt.mpr short, stands, bind,
            Except.bind]
      | file content => exact removeFile_of_named named short stands

theorem rename_eq {target : Path} {aim : Location}
    (stands : tree.standsAt? location = some (.file content))
    (arrives : NamesEntry tree target aim) :
    tree.rename path target =
      if tree.standsAt? aim = some .directory then .error .isADirectory
      else .ok ((tree.erase location).set aim (.file content)) := by
  obtain ⟨parent, last, named, short, rfl⟩ := names
  obtain ⟨newParent, newLast, newNamed, newShort, rfl⟩ := arrives
  rw [rename_file named newNamed short stands, if_neg (Nat.not_lt.mpr newShort)]

theorem backup (fits : BackupFits tree path location) :
    NamesEntry tree (Replacement.backupPath path) (backupOf location) := by
  obtain ⟨parent, last, named, _, rfl⟩ := names
  have short := fits.short
  rw [List.getLastD_concat, String.toList_append, String.toList_ofList] at short
  exact ⟨parent, _, named.backup fits.checked, short, backupOf_ofList parent last⟩

end NamesEntry

end FileTree

namespace Replacement

open FileTree

variable {tree : FileTree} {path : Path} {location reserve : Location} {content : Bytes}

/-- Whether a writer leaves everything as it is but its path and what is below it. -/
def KeepsTo (writer : Writer) (path : Path) : Prop :=
  ∀ tree : FileTree, DiffersWithin (tree.statedLocation path) tree (writer path tree).tree

theorem keepsTo_textWriter (text : String) (path : Path) : KeepsTo (textWriter text) path := by
  intro tree
  unfold textWriter
  split
  · rename_i written wrote
    obtain ⟨parent, last, named, _, _, rfl⟩ := write_eq_ok_iff.mp wrote
    rw [named.statedLocation_eq]
    refine ⟨rfl, fun place outside => standsAt?_set_of_ne _ _ ?_⟩
    rintro rfl
    exact outside (List.prefix_refl _)
  · exact ⟨rfl, fun _ _ => rfl⟩

section

variable (names : NamesEntry tree path location)
  (spare : NamesEntry tree (backupPath path) reserve)
  (spareStands : tree.standsAt? reserve = some (.file content)) (cause : FileFailure)

include names spare spareStands

theorem restore_of_directory (directory : tree.standsAt? location = some .directory) :
    restore path tree cause =
      ⟨tree, some (.restore path (backupPath path) cause .isADirectory)⟩ := by
  have removes := names.removeFile_eq
  simp only [directory] at removes
  have renames := spare.rename_eq spareStands names
  rw [if_pos directory] at renames
  simp only [restore, attempt, removes, ite_self, renames]

/-- Without a directory at the path the old content comes back. -/
theorem restore_of_not_directory (apart : reserve ≠ location)
    (notDirectory : tree.standsAt? location ≠ some .directory) :
    ∃ restored, restore path tree cause = ⟨restored, some (.write path cause)⟩ ∧
      SameDirectories tree restored ∧
        restored.standsAt? location = some (.file content) ∧ restored.standsAt? reserve = none ∧
          ∀ place, place ≠ location → place ≠ reserve →
            restored.standsAt? place = tree.standsAt? place := by
  obtain ⟨cleared, clears, same, free, outside⟩ : ∃ cleared,
      (if tree.pathExists path then attempt tree (·.removeFile path) else tree) = cleared ∧
        SameDirectories tree cleared ∧ cleared.standsAt? location = none ∧
          ∀ place, place ≠ location → cleared.standsAt? place = tree.standsAt? place := by
    have removes := names.removeFile_eq
    rw [names.pathExists_eq]
    cases stands : tree.standsAt? location with
    | none =>
        exact ⟨tree, by simp, SameDirectories.refl tree, stands, fun _ _ => rfl⟩
    | some entry =>
        cases entry with
        | directory => exact (notDirectory stands).elim
        | file left =>
            simp only [stands] at removes
            exact ⟨tree.erase location, by simp [attempt, removes],
              sameDirectories_erase notDirectory, standsAt?_erase_self tree names.ne_nil,
              fun _ different => standsAt?_erase_of_ne tree different⟩
  have stillSpare : cleared.standsAt? reserve = some (.file content) := by
    rw [outside reserve apart, spareStands]
  have renames :=
    (spare.of_sameDirectories same).rename_eq stillSpare (names.of_sameDirectories same)
  rw [free, if_neg (by simp)] at renames
  have spareNotDirectory : cleared.standsAt? reserve ≠ some .directory := by simp [stillSpare]
  have placed : (cleared.erase reserve).standsAt? location ≠ some .directory := by
    simp [standsAt?_erase_of_ne cleared apart.symm, free]
  refine ⟨(cleared.erase reserve).set location (.file content), ?_, ?_, ?_, ?_, ?_⟩
  · simp only [restore, clears, renames]
  · exact (same.trans (sameDirectories_erase spareNotDirectory)).trans
      (sameDirectories_set_file content placed)
  · exact standsAt?_set_self _ _ names.ne_nil
  · rw [standsAt?_set_of_ne _ _ apart, standsAt?_erase_self _ spare.ne_nil]
  · intro place notHere notSpare
    rw [standsAt?_set_of_ne _ _ notHere, standsAt?_erase_of_ne _ notSpare, outside place notHere]

end

theorem rename_fails_of_misfits (names : NamesEntry tree path location)
    (stands : tree.standsAt? location = some (.file content))
    (misfits : ¬ BackupFits tree path location) :
    ∃ failure, tree.rename path (backupPath path) = .error failure := by
  obtain ⟨parent, last, named, short, rfl⟩ := names
  exact rename_backup_fails named short stands misfits

variable {writer : Writer}

/-- A writer that keeps to its path leaves the backup of a file as it is. -/
theorem backup_of_keepsTo (proper : tree.Proper) (located : tree.locate path = .ok location)
    (stands : tree.standsAt? location = some (.file content))
    (fits : BackupFits tree path location) (keepsTo : KeepsTo writer path) :
    ∃ moved, tree.rename path (backupPath path) = .ok moved ∧
      NamesEntry (writer path moved).tree path location ∧
        NamesEntry (writer path moved).tree (backupPath path) (backupOf location) ∧
          (writer path moved).tree.standsAt? (backupOf location) = some (.file content) ∧
            ∀ place, ¬ location <+: place → place ≠ backupOf location →
              (writer path moved).tree.standsAt? place = tree.standsAt? place := by
  have names := NamesEntry.of_locate proper located (by simp [stands])
  obtain ⟨moved, renamed, changes, free, spareStands⟩ :=
    rename_of_fits proper located stands fits
  have namesMoved := names.of_sameDirectories changes.same
  have differs := keepsTo moved
  rw [namesMoved.statedLocation_eq] at differs
  have extended := differs.extends_of_free changes.proper free
  refine ⟨moved, renamed, namesMoved.of_extends extended,
    ((names.backup fits).of_sameDirectories changes.same).of_extends extended,
    extended.stands spareStands, ?_⟩
  intro place notBelow notSpare
  rw [differs.outside place notBelow, changes.outside place]
  simp only [List.mem_cons, List.not_mem_nil, or_false, not_or]
  exact ⟨fun same => notBelow (same ▸ List.prefix_refl _), notSpare⟩

section

variable {moved left : FileTree} (renamed : tree.rename path (backupPath path) = .ok moved)
  (spare : NamesEntry left (backupPath path) reserve)
  (spareStands : left.standsAt? reserve = some (.file content))

include renamed spare spareStands

theorem replaceWith_of_done (done : writer path moved = ⟨left, none⟩) :
    ∃ kept, replaceWith writer path tree = ⟨kept, none⟩ ∧
      kept.pathExists (backupPath path) = false ∧
        ∀ place, place ≠ reserve → kept.standsAt? place = left.standsAt? place := by
  have removes := spare.removeFile_eq
  simp only [spareStands] at removes
  have same := sameDirectories_erase
    (show left.standsAt? reserve ≠ some .directory by simp [spareStands])
  refine ⟨left.erase reserve, ?_, ?_, fun place different => standsAt?_erase_of_ne left different⟩
  · simp only [replaceWith, renamed, done, attempt, removes]
  · rw [(spare.of_sameDirectories same).pathExists_eq, standsAt?_erase_self left spare.ne_nil]
    rfl

/-- Once the writer gives up, the old content comes back from the backup or stays in it. -/
theorem replaceWith_of_failed (names : NamesEntry left path location) (apart : reserve ≠ location)
    {cause : FileFailure} (failed : writer path moved = ⟨left, some cause⟩) :
    (∃ restored, replaceWith writer path tree = ⟨restored, some (.write path cause)⟩ ∧
      restored.read path = .ok content ∧ restored.pathExists (backupPath path) = false ∧
        ∀ place, place ≠ location → place ≠ reserve →
          restored.standsAt? place = left.standsAt? place) ∨
    replaceWith writer path tree =
        ⟨left, some (.restore path (backupPath path) cause .isADirectory)⟩ ∧
      left.read (backupPath path) = .ok content := by
  have ends : replaceWith writer path tree = restore path left cause := by
    simp only [replaceWith, renamed, failed]
  rw [ends]
  by_cases directory : left.standsAt? location = some .directory
  · exact Or.inr ⟨restore_of_directory names spare spareStands cause directory,
      spare.read_eq spareStands⟩
  · obtain ⟨restored, restores, same, back, gone, elsewhere⟩ :=
      restore_of_not_directory names spare spareStands cause apart directory
    refine Or.inl ⟨restored, restores, (names.of_sameDirectories same).read_eq back, ?_, elsewhere⟩
    rw [(spare.of_sameDirectories same).pathExists_eq, gone]
    rfl

end

/-- A replacement never loses what the file held.  If it succeeds, the path is as the writer left
it and the backup is gone; if the file could not move to its backup, nothing has changed; if the
writer failed, the old content is back at the path and the backup is gone, or it is still in the
backup.  Nothing else changes. -/
theorem replaceWith_keeps_original (proper : tree.Proper)
    (reads : tree.read path = .ok content) (keepsTo : KeepsTo writer path) :
    let backup := backupPath path
    let outcome := replaceWith writer path tree
    (match outcome.failure with
      | none => ∃ moved, tree.rename path backup = .ok moved ∧
          (writer path moved).failure = none ∧
            (∀ place, tree.statedLocation path <+: place →
              outcome.tree.standsAt? place = (writer path moved).tree.standsAt? place) ∧
              outcome.tree.pathExists backup = false
      | some (.backup failed cause) => failed = path ∧ tree.rename path backup = .error cause ∧
          outcome.tree = tree
      | some (.write failed cause) => failed = path ∧
          (∃ moved, tree.rename path backup = .ok moved ∧
            (writer path moved).failure = some cause) ∧
            outcome.tree.read path = .ok content ∧ outcome.tree.pathExists backup = false
      | some (.restore failed spare cause _) => failed = path ∧ spare = backup ∧
          (∃ moved, tree.rename path backup = .ok moved ∧
            (writer path moved).failure = some cause) ∧
            outcome.tree.read backup = .ok content) ∧
      ∀ place, ¬ tree.statedLocation path <+: place → place ≠ tree.statedLocation backup →
        outcome.tree.standsAt? place = tree.standsAt? place := by
  intro backup outcome
  obtain ⟨location, located, stands⟩ := read_eq_ok_iff.mp reads
  have names := NamesEntry.of_locate proper located (by simp [stands])
  have apart := backupOf_ne names.ne_nil
  have notBelow := not_isPrefix_backupOf names.ne_nil
  rw [names.statedLocation_eq]
  by_cases fits : BackupFits tree path location
  · obtain ⟨moved, renamed, namesLeft, spareLeft, spareStands, outside⟩ :=
      backup_of_keepsTo proper located stands fits keepsTo
    have atSpare : tree.statedLocation backup = backupOf location :=
      (names.backup fits).statedLocation_eq
    rw [atSpare]
    cases result : writer path moved with
    | mk left failure =>
        simp only [result] at namesLeft spareLeft spareStands outside
        cases failure with
        | none =>
            obtain ⟨kept, ends, gone, same⟩ :=
              replaceWith_of_done renamed spareLeft spareStands result
            simp only [outcome, ends]
            refine ⟨⟨moved, renamed, by rw [result], ?_, gone⟩, ?_⟩
            · intro place below
              rw [result, same place fun isSpare => notBelow (isSpare ▸ below)]
            · intro place notHere notSpare
              rw [same place notSpare, outside place notHere notSpare]
        | some cause =>
            have failed : (writer path moved).failure = some cause := by rw [result]
            rcases replaceWith_of_failed renamed spareLeft spareStands namesLeft apart result with
              ⟨restored, ends, back, gone, same⟩ | ⟨ends, spared⟩
            · simp only [outcome, ends]
              refine ⟨⟨trivial, ⟨moved, renamed, failed⟩, back, gone⟩, ?_⟩
              intro place notHere notSpare
              rw [same place (fun isHere => notHere (isHere ▸ List.prefix_refl _)) notSpare,
                outside place notHere notSpare]
            · simp only [outcome, ends]
              exact ⟨⟨trivial, rfl, ⟨moved, renamed, failed⟩, spared⟩, outside⟩
  · obtain ⟨failure, fails⟩ := rename_fails_of_misfits names stands fits
    have ends : outcome = ⟨tree, some (.backup path failure)⟩ := by
      simp only [outcome, replaceWith, fails]
    rw [ends]
    exact ⟨⟨rfl, fails, rfl⟩, fun _ _ _ => rfl⟩

/-- A writer that gives up behind a first part of the new content. -/
def abortedWriter (text : String) : Writer := fun path tree =>
  ⟨(textWriter text path tree).tree, some (.refused "disk full")⟩

theorem keepsTo_abortedWriter (text : String) (path : Path) : KeepsTo (abortedWriter text) path :=
  fun tree => keepsTo_textWriter text path tree

theorem replaceWith_keeps_original_door :
    let tree : FileTree :=
      ⟨[(["Door.h"], .file [111, 108, 100]), (["Door.h.bak"], .file [98])], []⟩
    let outcome := replaceWith (abortedWriter "ne") ⟨"/Door.h"⟩ tree
    outcome.failure = some (.write ⟨"/Door.h"⟩ (.refused "disk full")) ∧
      outcome.tree.read ⟨"/Door.h"⟩ = .ok [111, 108, 100] ∧
        outcome.tree.pathExists ⟨"/Door.h.bak"⟩ = false := by
  intro tree outcome
  have failed : outcome.failure = some (.write ⟨"/Door.h"⟩ (.refused "disk full")) := by
    decide +kernel
  have proper : tree.Proper := by decide +kernel
  have reads : tree.read ⟨"/Door.h"⟩ = .ok [111, 108, 100] := by decide +kernel
  have keeps := (replaceWith_keeps_original proper reads (keepsTo_abortedWriter "ne" _)).1
  rw [failed] at keeps
  exact ⟨failed, keeps.2.2⟩

end Replacement

end ScriptRegistrar
