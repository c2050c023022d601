import ScriptRegistrar.Proofs.FileTree.Listing
import ScriptRegistrar.Proofs.FileTree.Targets
import ScriptRegistrar.Replacement

/-!
# What writing and replacing change

Writing a file changes the tree at the location of the file alone.  Replacing a file that can be
backed up changes it there and at the location of the backup, where nothing is left; a file that
cannot be backed up stays as it is.
-/

namespace ScriptRegistrar

open Text

/-- Characters that do not separate extend the last field. -/
theorem Text.fields_append_of_plain {separates : Char → Bool} {text tail last : List Char}
    {before : List (List Char)} (plain : ∀ character ∈ tail, separates character = false)
    (pieces : fields separates text = before ++ [last]) :
    fields separates (text ++ tail) = before ++ [last ++ tail] := by
  induction text generalizing before last with
  | nil =>
      rw [fields, ← List.nil_append [[]]] at pieces
      obtain ⟨rfl, same⟩ := List.append_inj' pieces rfl
      cases same
      rw [List.nil_append, fields_eq_singleton _ _ plain]
      rfl
  | cons next rest induction =>
      rcases List.eq_nil_or_concat (fields separates rest) with nothing | ⟨front, end_, shape⟩
      · exact (fields_ne_nil _ _ nothing).elim
      · rw [List.concat_eq_append] at shape
        have further := induction shape
        rw [List.cons_append, fields]
        rw [fields] at pieces
        split at pieces
        · rename_i isSeparator
          rw [shape, ← List.cons_append] at pieces
          obtain ⟨rfl, same⟩ := List.append_inj' pieces rfl
          cases same
          rw [if_pos isSeparator, further]
          rfl
        · rename_i stays
          rw [if_neg stays, further]
          cases front with
          | nil =>
              rw [shape, List.nil_append] at pieces
              simp only at pieces
              rw [← List.nil_append [next :: end_]] at pieces
              obtain ⟨rfl, same⟩ := List.append_inj' pieces rfl
              cases same
              rfl
          | cons first others =>
              rw [shape, List.cons_append] at pieces
              simp only at pieces
              rw [← List.cons_append] at pieces
              obtain ⟨rfl, same⟩ := List.append_inj' pieces rfl
              cases same
              rfl

namespace FileTree

/-- Whether two trees differ in the files at some locations alone. -/
structure ChangesOnly (touched : List Location) (tree other : FileTree) : Prop where
  proper : other.Proper
  same : SameDirectories tree other
  outside : ∀ location, location ∉ touched → other.standsAt? location = tree.standsAt? location

namespace ChangesOnly

variable {touched further : List Location} {tree other third : FileTree}

theorem refl (proper : tree.Proper) : ChangesOnly [] tree tree :=
  ⟨proper, SameDirectories.refl tree, fun _ _ => rfl⟩

theorem mono (changes : ChangesOnly touched tree other)
    (more : ∀ location ∈ touched, location ∈ further) : ChangesOnly further tree other :=
  ⟨changes.proper, changes.same, fun location outside =>
    changes.outside location fun member => outside (more location member)⟩

theorem trans (first : ChangesOnly touched tree other) (second : ChangesOnly touched other third) :
    ChangesOnly touched tree third :=
  ⟨second.proper, first.same.trans second.same, fun location outside =>
    (second.outside location outside).trans (first.outside location outside)⟩

theorem set_file (proper : tree.Proper) {parent : Location} {name : String} (content : Bytes)
    (inDirectory : tree.standsAt? parent = some .directory) (isName : IsEntryName name)
    (notDirectory : tree.standsAt? (parent ++ [name]) ≠ some .directory) :
    ChangesOnly [parent ++ [name]] tree (tree.set (parent ++ [name]) (.file content)) :=
  ⟨proper.set_file content inDirectory isName notDirectory,
    sameDirectories_set_file content notDirectory, fun _ outside =>
    standsAt?_set_of_ne _ _ fun same => outside (same ▸ List.mem_singleton_self _)⟩

theorem erase (proper : tree.Proper) {location : Location}
    (notDirectory : tree.standsAt? location ≠ some .directory) :
    ChangesOnly [location] tree (tree.erase location) :=
  ⟨proper.erase notDirectory, sameDirectories_erase notDirectory, fun _ outside =>
    standsAt?_erase_of_ne _ fun same => outside (same ▸ List.mem_singleton_self _)⟩

end ChangesOnly

variable {tree other : FileTree} {path : Path}

theorem lookup_eq {unnamed : FileFailure} {parent : Location} {last : List Char}
    {asDirectory : Bool} :
    tree.lookup unnamed ⟨parent, some (String.ofList last), asDirectory⟩ =
      if nameLimit < byteLength last then .error .nameTooLong
      else .ok (parent ++ [String.ofList last],
        tree.standsAt? (parent ++ [String.ofList last])) := by
  simp [lookup]

/-- A file is written where the path names an entry that is no directory. -/
theorem write_eq_ok_iff {content : Bytes} {written : FileTree} :
    tree.write path content = .ok written ↔
      ∃ parent last, NamedParts tree path parent last [] ∧ byteLength last ≤ nameLimit ∧
        tree.standsAt? (parent ++ [String.ofList last]) ≠ some .directory ∧
          written = tree.set (parent ++ [String.ofList last]) (.file content) := by
  constructor
  · intro wrote
    unfold write at wrote
    cases found : tree.target path with
    | error failure =>
        rw [found] at wrote
        cases wrote
    | ok target =>
        obtain ⟨parent, name?, asDirectory⟩ := target
        rw [found] at wrote
        simp only [bind, Except.bind] at wrote
        split at wrote
        · cases wrote
        · rename_i noSlash
          cases name? with
          | none =>
              simp only [lookup] at wrote
              cases wrote
          | some name =>
              obtain ⟨last, slashes, named, rfl, rfl⟩ := namedParts_of_target found rfl
              have noSlashes : slashes = [] := by simpa using noSlash
              subst noSlashes
              simp only [lookup_eq] at wrote
              by_cases fits : nameLimit < byteLength last
              · simp only [if_pos fits] at wrote
                cases wrote
              · simp only [if_neg fits] at wrote
                split at wrote
                · cases wrote
                · rename_i notDirectory
                  cases wrote
                  exact ⟨parent, last, named, Nat.le_of_not_lt fits, notDirectory, rfl⟩
  · rintro ⟨parent, last, named, fits, notDirectory, rfl⟩
    simp [write, named.target_eq, lookup_eq, Nat.not_lt.mpr fits, notDirectory, bind, Except.bind]

theorem changesOnly_of_write (proper : tree.Proper) {content : Bytes} {written : FileTree}
    (wrote : tree.write path content = .ok written) :
    ChangesOnly [tree.statedLocation path] tree written ∧
      written.standsAt? (tree.statedLocation path) = some (.file content) := by
  obtain ⟨parent, last, named, _, notDirectory, rfl⟩ := write_eq_ok_iff.mp wrote
  rw [named.statedLocation_eq]
  exact ⟨ChangesOnly.set_file proper content named.inDirectory named.isEntryName notDirectory,
    standsAt?_set_self _ _ (by simp)⟩

theorem read_of_write (proper : tree.Proper) {content : Bytes} {written : FileTree}
    (wrote : tree.write path content = .ok written) : written.read path = .ok content := by
  obtain ⟨changes, here⟩ := changesOnly_of_write proper wrote
  obtain ⟨parent, last, named, short, _, _⟩ := write_eq_ok_iff.mp wrote
  rw [named.statedLocation_eq] at here
  exact read_eq_ok_iff.mpr ⟨_, (named.of_sameDirectories changes.same).locate short
    (by rw [here]; rfl), here⟩

theorem write_of_read (proper : tree.Proper) {content : Bytes}
    (reads : tree.read path = .ok content) :
    ∃ written, tree.write path content = .ok written ∧ ChangesOnly [] tree written := by
  obtain ⟨location, located, stands⟩ := read_eq_ok_iff.mp reads
  have notDirectory : tree.standsAt? location ≠ some .directory := by simp [stands]
  obtain ⟨last, named, shape, short, _⟩ := namedParts_of_locate proper located notDirectory
  obtain ⟨written, wrote⟩ : ∃ written, tree.write path content = .ok written :=
    ⟨_, write_eq_ok_iff.mpr ⟨_, last, named, short, shape ▸ notDirectory, rfl⟩⟩
  obtain ⟨changes, here⟩ := changesOnly_of_write proper wrote
  refine ⟨written, wrote, changes.proper, changes.same, fun other _ => ?_⟩
  by_cases same : other = tree.statedLocation path
  · rw [same, here, ← eq_of_locate located, stands]
  · exact changes.outside other (by simpa using same)

theorem SameDirectories.write (same : SameDirectories tree other) {content further : Bytes}
    {written : FileTree} (wrote : tree.write path content = .ok written) :
    ∃ rewritten, other.write path further = .ok rewritten := by
  obtain ⟨parent, last, named, fits, notDirectory, _⟩ := write_eq_ok_iff.mp wrote
  exact ⟨_, write_eq_ok_iff.mpr ⟨parent, last, named.of_sameDirectories same, fits,
    fun directory => notDirectory ((same.directory _).mp directory), rfl⟩⟩

/-- The location of the backup of a file. -/
def backupOf (location : Location) : Location :=
  location.dropLast ++ [location.getLastD "" ++ ".bak"]

@[simp] theorem backupOf_concat (parent : Location) (name : String) :
    backupOf (parent ++ [name]) = parent ++ [name ++ ".bak"] := by
  simp [backupOf]

theorem backupOf_ne {location : Location} (below : location ≠ []) :
    backupOf location ≠ location := by
  rcases List.eq_nil_or_concat location with rfl | ⟨parent, name, rfl⟩
  · exact (below rfl).elim
  · rw [List.concat_eq_append, backupOf_concat]
    intro same
    have names := List.append_cancel_left same
    simp only [List.cons.injEq, and_true] at names
    have lengths := congrArg (fun text : String => text.toList.length) names
    simp at lengths

theorem IsNamePiece.backup {last : List Char} (isName : IsNamePiece last) :
    IsNamePiece (last ++ ".bak".toList) := by
  have long : 4 < (last ++ ".bak".toList).length := by
    have nonempty := List.length_pos_iff.mpr isName.ne_nil
    rw [List.length_append, show ".bak".toList.length = 4 from rfl]
    omega
  have other : ∀ {piece : List Char}, piece.length ≤ 4 → last ++ ".bak".toList ≠ piece := by
    rintro piece less rfl
    omega
  refine ⟨?_, other (by decide)⟩
  rw [Path.isIdle, Bool.or_eq_false_iff, List.isEmpty_eq_false_iff, decide_eq_false_iff_not]
  exact ⟨other (by decide), other (by decide)⟩

/-- The backup of a file that a path names is named by the path of the backup. -/
theorem NamedParts.backup {parent : Location} {last : List Char}
    (named : NamedParts tree path parent last [])
    (checked : checkPath (Replacement.backupPath path) = .ok ()) :
    NamedParts tree (Replacement.backupPath path) parent (last ++ ".bak".toList) [] := by
  obtain ⟨before, pieces, followed⟩ := named.parts
  refine ⟨checked, ⟨before, ?_, ?_⟩, by simp, named.isName.backup, named.inDirectory⟩
  · rw [Path.pieces, Replacement.backupPath, String.toList_append]
    exact fields_append_of_plain (by simp) pieces
  · have sameRoot : (Replacement.backupPath path).isAbsolute = path.isAbsolute := by
      have nonempty : path.text.toList ≠ [] := by
        intro nothing
        have empty : path.text = "" := String.toList_inj.mp nothing
        have refused := named.checked
        simp [checkPath, empty] at refused
      obtain ⟨first, rest, shape⟩ := List.exists_cons_of_ne_nil nonempty
      simp [Path.isAbsolute, Replacement.backupPath, shape]
    rw [origin, sameRoot]
    exact followed

/-- Whether a file can move to its backup. -/
structure BackupFits (tree : FileTree) (path : Path) (location : Location) : Prop where
  checked : checkPath (Replacement.backupPath path) = .ok ()
  short : byteLength (location.getLastD "" ++ ".bak").toList ≤ nameLimit
  notDirectory : tree.standsAt? (backupOf location) ≠ some .directory

theorem SameDirectories.backupFits (same : SameDirectories tree other) {location : Location}
    (fits : BackupFits tree path location) : BackupFits other path location :=
  ⟨fits.checked, fits.short, fun directory =>
    fits.notDirectory ((same.directory _).mp directory)⟩

/-- A file moves to where no directory stands. -/
theorem rename_file {target : Path} {parent newParent : Location} {last newLast : List Char}
    {content : Bytes} (leaving : NamedParts tree path parent last [])
    (arriving : NamedParts tree target newParent newLast []) (short : byteLength last ≤ nameLimit)
    (stands : tree.standsAt? (parent ++ [String.ofList last]) = some (.file content)) :
    tree.rename path target =
      if nameLimit < byteLength newLast then .error .nameTooLong
      else if tree.standsAt? (newParent ++ [String.ofList newLast]) = some .directory then
        .error .isADirectory
      else .ok ((tree.erase (parent ++ [String.ofList last])).set
        (newParent ++ [String.ofList newLast]) (.file content)) := by
  by_cases long : nameLimit < byteLength newLast
  · simp [rename, leaving.target_eq, arriving.target_eq, lookup_eq, Nat.not_lt.mpr short, stands,
      long, bind, Except.bind]
  · simp [rename, leaving.target_eq, arriving.target_eq, lookup_eq, Nat.not_lt.mpr short, stands,
      long, bind, Except.bind]

@[simp] theorem backupOf_ofList (parent : Location) (last : List Char) :
    backupOf (parent ++ [String.ofList last]) =
      parent ++ [String.ofList (last ++ ".bak".toList)] := by
  simp [String.ofList_append]

section

variable {parent : Location} {last : List Char} {content : Bytes}
  (named : NamedParts tree path parent last []) (short : byteLength last ≤ nameLimit)
  (stands : tree.standsAt? (parent ++ [String.ofList last]) = some (.file content))

include named short stands

theorem rename_backup (fits : BackupFits tree path (parent ++ [String.ofList last])) :
    tree.rename path (Replacement.backupPath path) =
      .ok ((tree.erase (parent ++ [String.ofList last])).set
        (backupOf (parent ++ [String.ofList last])) (.file content)) := by
  have shortBackup := fits.short
  have notDirectory := fits.notDirectory
  rw [List.getLastD_concat, String.toList_append, String.toList_ofList] at shortBackup
  rw [backupOf_ofList] at notDirectory ⊢
  rw [rename_file named (named.backup fits.checked) short stands,
    if_neg (Nat.not_lt.mpr shortBackup), if_neg notDirectory]

theorem rename_backup_fails (misfits : ¬ BackupFits tree path (parent ++ [String.ofList last])) :
    ∃ failure, tree.rename path (Replacement.backupPath path) = .error failure := by
  cases checked : checkPath (Replacement.backupPath path) with
  | error failure =>
      have refused : tree.target (Replacement.backupPath path) = .error failure := by
        simp [target, checked, bind, Except.bind]
      exact ⟨failure, by simp [rename, named.target_eq, refused, bind, Except.bind]⟩
  | ok done =>
      rw [rename_file named (named.backup checked) short stands]
      by_cases long : nameLimit < byteLength (last ++ ".bak".toList)
      · exact ⟨_, if_pos long⟩
      · rw [if_neg long]
        by_cases directory : tree.standsAt? (parent ++ [String.ofList (last ++ ".bak".toList)]) =
            some .directory
        · exact ⟨_, if_pos directory⟩
        · refine (misfits ⟨checked, ?_, backupOf_ofList parent last ▸ directory⟩).elim
          rw [List.getLastD_concat, String.toList_append, String.toList_ofList]
          exact Nat.le_of_not_lt long

end

theorem removeFile_of_named {parent : Location} {last : List Char} {content : Bytes}
    (named : NamedParts tree path parent last []) (short : byteLength last ≤ nameLimit)
    (stands : tree.standsAt? (parent ++ [String.ofList last]) = some (.file content)) :
    tree.removeFile path = .ok (tree.erase (parent ++ [String.ofList last])) := by
  simp [removeFile, named.target_eq, lookup_eq, Nat.not_lt.mpr short, stands, bind, Except.bind]

/-- A file that fits a backup moves there. -/
theorem rename_of_fits (proper : tree.Proper) {location : Location} {content : Bytes}
    (located : tree.locate path = .ok location)
    (stands : tree.standsAt? location = some (.file content))
    (fits : BackupFits tree path location) :
    ∃ moved, tree.rename path (Replacement.backupPath path) = .ok moved ∧
      ChangesOnly [location, backupOf location] tree moved ∧
        moved.standsAt? location = none ∧
          moved.standsAt? (backupOf location) = some (.file content) := by
  have notDirectory : tree.standsAt? location ≠ some .directory := by simp [stands]
  obtain ⟨last, named, shape, short, _⟩ := namedParts_of_locate proper located notDirectory
  have below := IsFileAt.ne_nil ⟨content, stands⟩
  have apart := backupOf_ne below
  have renamed := rename_backup named short (shape ▸ stands) (shape ▸ fits)
  have spare := named.backup fits.checked
  have spareLocation := backupOf_ofList location.dropLast last
  rw [← shape] at renamed spareLocation
  have erased := ChangesOnly.erase proper notDirectory
  have spareNotDirectory := fits.notDirectory
  rw [← standsAt?_erase_of_ne tree apart, spareLocation] at spareNotDirectory
  have moved := ChangesOnly.set_file erased.proper content
    ((erased.same.directory _).mpr named.inDirectory) spare.isEntryName spareNotDirectory
  rw [← spareLocation] at moved
  refine ⟨_, renamed, (erased.mono ?_).trans (moved.mono ?_), ?_, ?_⟩
  · simp
  · simp
  · rw [moved.outside location (by simpa using apart.symm), standsAt?_erase_self _ below]
  · rw [standsAt?_set_self _ _ (by simp [backupOf])]

/-- Replacing a file that fits a backup puts the text there and leaves no backup. -/
theorem replace_of_fits (proper : tree.Proper) {location : Location} {content : Bytes}
    (located : tree.locate path = .ok location)
    (stands : tree.standsAt? location = some (.file content))
    (fits : BackupFits tree path location) (text : String) :
    ∃ replaced, Replacement.replace text path tree = ⟨replaced, none⟩ ∧
      ChangesOnly [location, backupOf location] tree replaced ∧
        replaced.standsAt? location = some (.file (Utf8.encode text)) ∧
          replaced.standsAt? (backupOf location) = none := by
  obtain ⟨last, named, shape, short, _⟩ := namedParts_of_locate proper located (by simp [stands])
  have apart := backupOf_ne (IsFileAt.ne_nil ⟨content, stands⟩)
  have spare := named.backup fits.checked
  have spareLocation := backupOf_ofList location.dropLast last
  rw [← shape] at spareLocation
  obtain ⟨moved, renamed, changes, nothingHere, spareStands⟩ :=
    rename_of_fits proper located stands fits
  have namedStill := named.of_sameDirectories changes.same
  have stated := namedStill.statedLocation_eq
  rw [← shape] at stated
  have wrote : moved.writeText path text = .ok (moved.set location (.file (Utf8.encode text))) :=
    write_eq_ok_iff.mpr ⟨_, last, namedStill, short, by simp [← shape, nothingHere],
      by rw [← shape]⟩
  obtain ⟨written, here⟩ := changesOnly_of_write changes.proper wrote
  rw [stated] at written here
  have stillSpare : (moved.set location (.file (Utf8.encode text))).standsAt?
      (backupOf location) = some (.file content) := by
    rw [written.outside _ (by simpa using apart), spareStands]
  have shortSpare := fits.short
  rw [shape, List.getLastD_concat, String.toList_append, String.toList_ofList] at shortSpare
  have removed := removeFile_of_named (spare.of_sameDirectories (changes.same.trans written.same))
    shortSpare (spareLocation ▸ stillSpare)
  rw [← spareLocation] at removed
  have cleared := ChangesOnly.erase written.proper
    (show _ ≠ some Entry.directory by rw [stillSpare]; simp)
  refine ⟨_, ?_, (changes.trans ((written.mono ?_).trans (cleared.mono ?_))), ?_,
    standsAt?_erase_self _ (by simp [backupOf])⟩
  · simp only [Replacement.replace, Replacement.replaceWith, renamed, Replacement.textWriter, wrote,
      Replacement.attempt, removed]
  · simp
  · simp
  · rw [cleared.outside location (by simpa using apart.symm), here]

theorem replace_of_misfits (proper : tree.Proper) {location : Location} {content : Bytes}
    (located : tree.locate path = .ok location)
    (stands : tree.standsAt? location = some (.file content))
    (misfits : ¬ BackupFits tree path location) (text : String) :
    ∃ failure, Replacement.replace text path tree = ⟨tree, some failure⟩ := by
  obtain ⟨last, named, shape, short, _⟩ := namedParts_of_locate proper located (by simp [stands])
  rw [shape] at stands misfits
  obtain ⟨failure, fails⟩ := rename_backup_fails named short stands misfits
  exact ⟨.backup path failure, by simp only [Replacement.replace, Replacement.replaceWith, fails]⟩

end FileTree

end ScriptRegistrar
