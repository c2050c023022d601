import ScriptRegistrar.Proofs.Generator.HeaderIsolation

/-!
# What a run leaves alone

Besides the aggregate a run overwrites the headers that it reports as updated and touches nothing
else: no other file changes, no entry disappears, and no backup stays behind.  A run that cannot
write the aggregate changes nothing at all.  As in `FileTree.write`, a file cannot be written only if
it cannot be opened; a write that breaks off part way is not spoken of.
-/

namespace ScriptRegistrar

open Text FileTree

/-- Whether two trees differ in the contents of the files at some locations alone. -/
structure FileTree.OverwritesOnly (touched : List Location) (tree other : FileTree) : Prop
    extends ChangesOnly touched tree other where
  before : ∀ location ∈ touched, tree.IsFileAt location
  after : ∀ location ∈ touched, other.IsFileAt location

namespace FileTree.OverwritesOnly

variable {touched further : List Location} {tree middle other : FileTree}

theorem refl (proper : tree.Proper) : OverwritesOnly [] tree tree :=
  ⟨ChangesOnly.refl proper, by simp, by simp⟩

theorem isFileAt_iff (overwrites : OverwritesOnly touched tree other) (location : Location) :
    other.IsFileAt location ↔ tree.IsFileAt location := by
  by_cases inside : location ∈ touched
  · exact iff_of_true (overwrites.after location inside) (overwrites.before location inside)
  · have same := overwrites.outside location inside
    simp only [IsFileAt, same]

theorem trans (first : OverwritesOnly touched tree middle)
    (second : OverwritesOnly further middle other) :
    OverwritesOnly (touched ++ further) tree other := by
  have changes := (first.toChangesOnly.mono fun location listed =>
    List.mem_append_left further listed).trans (second.toChangesOnly.mono fun location listed =>
      List.mem_append_right touched listed)
  refine ⟨changes, ?_, ?_⟩
  · intro location listed
    rcases List.mem_append.mp listed with inFirst | inSecond
    · exact first.before location inFirst
    · exact (first.isFileAt_iff location).mp (second.before location inSecond)
  · intro location listed
    rcases List.mem_append.mp listed with inFirst | inSecond
    · exact (second.isFileAt_iff location).mpr (first.after location inFirst)
    · exact second.after location inSecond

theorem standsAt?_eq_none (overwrites : OverwritesOnly touched tree other) {location : Location}
    (free : tree.standsAt? location = none) : other.standsAt? location = none := by
  have untouched : location ∉ touched := by
    intro listed
    obtain ⟨content, stands⟩ := overwrites.before location listed
    rw [free] at stands
    cases stands
  rw [overwrites.outside location untouched, free]

theorem isSome_standsAt? (overwrites : OverwritesOnly touched tree other) (location : Location) :
    (other.standsAt? location).isSome = (tree.standsAt? location).isSome := by
  by_cases inside : location ∈ touched
  · obtain ⟨content, stood⟩ := overwrites.before location inside
    obtain ⟨left, stands⟩ := overwrites.after location inside
    simp [stood, stands]
  · rw [overwrites.outside location inside]

end FileTree.OverwritesOnly

namespace Generator

variable {generator : Generator} {tree written after : FileTree} {root path project : Path}
  {directory : Location}

/-- The locations of the headers that notes report as updated. -/
def updatedLocations (tree : FileTree) (notes : List InjectionNote) : List Location :=
  (notes.filterMap InjectionNote.updated?).map tree.statedLocation

theorem updatedLocations_cons (tree : FileTree) (note : InjectionNote)
    (notes : List InjectionNote) :
    updatedLocations tree (note :: notes) =
      updatedLocations tree [note] ++ updatedLocations tree notes := by
  unfold updatedLocations
  rw [← List.map_append, ← List.filterMap_append, List.singleton_append]

theorem updatedLocations_of_sameDirectories (same : SameDirectories tree written)
    (notes : List InjectionNote) : updatedLocations written notes = updatedLocations tree notes :=
  List.map_congr_left fun path _ => same.statedLocation path

theorem injectInto_overwritesOnly (proper : tree.Proper)
    (free : tree.standsAt? (backupOf (tree.statedLocation path)) = none) (script : ScriptClass) :
    let note : InjectionNote := ⟨path, script.name, (generator.injectInto path script tree).2⟩
    OverwritesOnly (updatedLocations tree [note]) tree
      (generator.injectInto path script tree).1 := by
  intro note
  by_cases leaves : generator.LeavesHeader tree path script
  · obtain ⟨result, into, notUpdated⟩ := injectInto_of_leaves proper leaves
    have silent : updatedLocations tree [note] = [] := by
      simp [note, into, updatedLocations, InjectionNote.updated?, notUpdated]
    rw [silent, into]
    exact OverwritesOnly.refl proper
  · obtain ⟨_, content, _, _, located, stands, _, _, into, changes, here, spare⟩ :=
      injectInto_of_not_leaves proper leaves
    obtain rfl := eq_of_locate located
    have told : updatedLocations tree [note] = [tree.statedLocation path] := by
      simp [note, into, updatedLocations, InjectionNote.updated?]
    rw [told, into]
    refine ⟨⟨changes.proper, changes.same, ?_⟩, ?_, ?_⟩
    · intro other outside
      by_cases isBackup : other = backupOf (tree.statedLocation path)
      · rw [isBackup, spare, free]
      · apply changes.outside other
        simp only [List.mem_singleton] at outside
        simp [outside, isBackup]
    · exact List.forall_mem_singleton.mpr ⟨content, stands⟩
    · exact List.forall_mem_singleton.mpr ⟨_, here⟩

/-- Bringing classes up to date one after the other overwrites the headers that the notes report as
updated. -/
theorem injectAll_overwritesOnly (proper : tree.Proper) {scripts : List ScriptClass}
    (free : ∀ script ∈ scripts,
      tree.standsAt? (backupOf (tree.statedLocation (root.join script.header))) = none) :
    OverwritesOnly (updatedLocations tree (generator.injectAll root tree scripts).2) tree
      (generator.injectAll root tree scripts).1 := by
  induction scripts generalizing tree with
  | nil => exact OverwritesOnly.refl proper
  | cons script rest induction =>
      obtain ⟨freeHere, freeOthers⟩ := List.forall_mem_cons.mp free
      have first := @injectInto_overwritesOnly generator tree (root.join script.header) proper
        freeHere script
      have second := induction first.proper fun other listed => by
        rw [first.same.statedLocation]
        exact first.standsAt?_eq_none (freeOthers other listed)
      rw [updatedLocations_of_sameDirectories first.same] at second
      simp only [injectAll]
      rw [updatedLocations_cons]
      exact first.trans second

/-- Whether no header has a backup, and none would have the aggregate for one. -/
structure FreeOfBackups (generator : Generator) (tree : FileTree) (root : Path) : Prop where
  absent : ∀ path ∈ generator.headers tree root,
    tree.standsAt? (backupOf (tree.statedLocation path)) = none
  notAggregate : ∀ path ∈ generator.headers tree root,
    backupOf (tree.statedLocation path) ≠ tree.statedLocation (generator.aggregatePath root)

/-- What a run that ended well has in common with the tree before it. -/
structure RunFrame (generator : Generator) (tree : FileTree) (root project : Path)
    (after : FileTree) (summary : GenerationSummary) : Prop where
  appears : ∀ location, tree.standsAt? location = none → after.standsAt? location ≠ none →
    location = tree.statedLocation (generator.aggregatePath root)
  stays : ∀ location, tree.standsAt? location ≠ none → after.standsAt? location ≠ none
  directories : SameDirectories tree after
  unchanged : ∀ location,
    location ≠ tree.statedLocation (generator.aggregatePath root) →
      location ∉ summary.updated.map tree.statedLocation →
        after.standsAt? location = tree.standsAt? location
  headers : ∀ path ∈ summary.updated, path ∈ generator.headers tree root
  records : summary.scan.records = (generator.scan tree project).records
  generatedFile : summary.generatedFile = some (generator.aggregatePath root)
  aggregate : generator.LeavesAggregate tree root after summary

theorem join_header_mem_headers (proper : tree.Proper)
    (leads : tree.LeadsToDirectory root directory) {script : ScriptClass}
    (wanted : script ∈ (generator.headers tree root).flatMap (generator.wantedIn tree root)) :
    root.join script.header ∈ generator.headers tree root := by
  obtain ⟨path, listed, found⟩ := List.mem_flatMap.mp wanted
  rwa [join_header_of_mem_wantedIn proper leads listed found]

theorem exists_of_mem_injectAll {scripts : List ScriptClass} {note : InjectionNote}
    (noted : note ∈ (generator.injectAll root tree scripts).2) :
    ∃ script ∈ scripts, note.path = root.join script.header := by
  induction scripts generalizing tree with
  | nil => cases noted
  | cons script rest induction =>
      simp only [injectAll, List.mem_cons] at noted
      rcases noted with rfl | later
      · exact ⟨script, List.mem_cons_self, rfl⟩
      · obtain ⟨other, listed, same⟩ := induction later
        exact ⟨other, List.mem_cons_of_mem _ listed, same⟩

theorem path_of_updated? {note : InjectionNote} (updated : note.updated? = some path) :
    note.path = path := by
  unfold InjectionNote.updated? at updated
  split at updated
  · exact Option.some.inj updated
  · cases updated

section

variable (atRoot : generator.config.scriptsRoot project = root) (proper : tree.Proper)
  (leads : tree.LeadsToDirectory root directory)
  {summary : GenerationSummary} (ran : generator.generate tree project = ⟨after, .ok summary⟩)

include atRoot proper leads ran

theorem mem_headers_of_mem_updated (updated : path ∈ summary.updated) :
    path ∈ generator.headers tree root := by
  obtain ⟨text, written, _, _, _, injected, summaryEq⟩ := parts_of_generate atRoot leads ran
  rw [summaryEq] at updated
  obtain ⟨note, noted, isUpdated⟩ := List.mem_filterMap.mp updated
  have inRun := congrArg Prod.snd injected
  dsimp only at inRun
  rw [← inRun] at noted
  obtain ⟨script, wanted, samePath⟩ := exists_of_mem_injectAll noted
  rw [← path_of_updated? isUpdated, samePath]
  exact join_header_mem_headers proper leads wanted

/-- A run writes the aggregate, and then overwrites the headers that it reports as updated. -/
theorem overwritesOnly_of_generate (free : generator.FreeOfBackups tree root) :
    ∃ written,
      tree.writeText (generator.aggregatePath root)
          (Aggregate.render generator.config.registration (generator.byHandIn tree root)
            summary.scan.records) = .ok written ∧
        OverwritesOnly (summary.updated.map tree.statedLocation) written after := by
  obtain ⟨text, written, rendered, wrote, _, injected, summaryEq⟩ :=
    parts_of_generate atRoot leads ran
  obtain ⟨writes, _⟩ := changesOnly_of_write proper wrote
  refine ⟨written, rendered ▸ wrote, ?_⟩
  have overwrites := @injectAll_overwritesOnly generator written root writes.proper
    ((generator.headers tree root).flatMap (generator.wantedIn tree root)) fun script wanted => by
      have listed := join_header_mem_headers proper leads wanted
      rw [writes.same.statedLocation,
        writes.outside _ (by simpa using free.notAggregate _ listed)]
      exact free.absent _ listed
  rw [injected, updatedLocations_of_sameDirectories writes.same] at overwrites
  have updated : summary.updated = _ := congrArg GenerationSummary.updated summaryEq
  rw [updated]
  exact overwrites

theorem runFrame (free : generator.FreeOfBackups tree root) :
    generator.RunFrame tree root project after summary := by
  obtain ⟨written, wrote, overwrites⟩ := overwritesOnly_of_generate atRoot proper leads ran free
  obtain ⟨writes, here⟩ := changesOnly_of_write proper wrote
  have headers := fun path (updated : path ∈ summary.updated) =>
    mem_headers_of_mem_updated atRoot proper leads ran updated
  have aggregateApart : tree.statedLocation (generator.aggregatePath root) ∉
      summary.updated.map tree.statedLocation := by
    intro listed
    obtain ⟨path, updated, same⟩ := List.mem_map.mp listed
    exact statedLocation_ne_aggregatePath leads proper path (headers path updated) same
  have aggregate := (overwrites.outside _ aggregateApart).trans here
  have isSome : ∀ location,
      location ≠ tree.statedLocation (generator.aggregatePath root) →
        (after.standsAt? location).isSome = (tree.standsAt? location).isSome := by
    intro location notAggregate
    rw [overwrites.isSome_standsAt?, writes.outside location (by simpa using notAggregate)]
  obtain ⟨_, _, _, _, _, _, summaryEq⟩ := parts_of_generate atRoot leads ran
  constructor
  case appears =>
    intro location absent appeared
    by_contra notAggregate
    have same := isSome location notAggregate
    rw [absent, Option.isSome_none, Option.isSome_eq_false_iff, Option.isNone_iff_eq_none] at same
    exact appeared same
  case stays =>
    intro location stood
    by_cases isAggregate : location = tree.statedLocation (generator.aggregatePath root)
    · rw [isAggregate, aggregate]
      exact Option.some_ne_none _
    · rw [← Option.isSome_iff_ne_none, isSome location isAggregate, Option.isSome_iff_ne_none]
      exact stood
  case directories => exact writes.same.trans overwrites.same
  case unchanged =>
    intro location notAggregate notUpdated
    rw [overwrites.outside location notUpdated,
      writes.outside location (by simpa using notAggregate)]
  case headers => exact headers
  case records => exact congrArg (·.scan.records) summaryEq
  case generatedFile => exact congrArg GenerationSummary.generatedFile summaryEq
  case aggregate => exact aggregate

end

/-- A run that does not end well leaves the tree as it is, and if classes can be looked up beside
their headers it could not write the aggregate. -/
theorem generate_of_error (plain : '/' ∉ generator.config.sourceExtension.toList)
    {failure : GenerationFailure}
    (failed : generator.generate tree project = ⟨after, .error failure⟩) :
    after = tree ∧ ∃ cause, failure = .aggregateWrite
      (generator.aggregatePath (generator.config.scriptsRoot project)) cause := by
  by_cases isDirectory : tree.isDirectory (generator.config.scriptsRoot project) = true
  · obtain ⟨text, rendered⟩ := @exists_aggregate? generator
      (generator.config.scriptsRoot project) plain tree (generator.scan tree project).records
    delta generate at failed
    simp only [scriptsRoot_scan rfl isDirectory, rendered] at failed
    split at failed
    · rename_i cause _
      cases failed
      exact ⟨rfl, cause, rfl⟩
    · cases failed
  · rw [generate_of_not_directory (by simpa using isDirectory)] at failed
    cases failed

/-- A run changes nothing where there is no scripts directory or the aggregate cannot be opened for
writing, and otherwise nothing but the aggregate and the headers that it reports as updated. -/
theorem generate_frame (proper : tree.Proper)
    (plain : '/' ∉ generator.config.sourceExtension.toList)
    (free : generator.FreeOfBackups tree (generator.config.scriptsRoot project)) :
    (tree.isDirectory (generator.config.scriptsRoot project) = false →
      generator.generate tree project = ⟨tree, .ok { scan := {} }⟩) ∧
    (∀ after failure, generator.generate tree project = ⟨after, .error failure⟩ →
      after = tree ∧ ∃ cause, failure = .aggregateWrite
        (generator.aggregatePath (generator.config.scriptsRoot project)) cause) ∧
    (tree.isDirectory (generator.config.scriptsRoot project) = true →
      ∀ after summary, generator.generate tree project = ⟨after, .ok summary⟩ →
        generator.RunFrame tree (generator.config.scriptsRoot project) project after summary) := by
  refine ⟨generate_of_not_directory, ?_, ?_⟩
  · exact fun after failure failed => generate_of_error plain failed
  · intro isDirectory after summary ran
    obtain ⟨directory, leads⟩ := isDirectory_iff.mp isDirectory
    exact runFrame rfl proper leads ran free

theorem generate_frame_door :
    let generator : Generator :=
      ⟨{ baseClass := "B", markers := { message := "M" } }, .engineDefault, rfl⟩
    let root := generator.config.scriptsRoot ⟨"p"⟩
    let tree : FileTree := ⟨[(["p"], .directory), (["p", "Scripts"], .directory),
      (["p", "Scripts", "Door.h"],
        .file (Utf8.encode "class Door:public B\x7bDoor()\x7b\x7dM()void Open();\x7d;")),
      (["p", "notes.txt"], .file [0xFF])], []⟩
    ∃ after summary, generator.generate tree ⟨"p"⟩ = ⟨after, .ok summary⟩ ∧
      summary.updated = [⟨"p/Scripts/Door.h"⟩] ∧
      generator.RunFrame tree root ⟨"p"⟩ after summary := by
  intro generator root tree
  have proper : tree.Proper := by decide +kernel
  have leads : tree.LeadsToDirectory root ["p", "Scripts"] :=
    ⟨by decide +kernel, by decide +kernel⟩
  have headers : generator.headers tree root = [⟨"p/Scripts/Door.h"⟩] := by
    rw [Generator.headers_eq leads, fileLocations_eq,
      List.mergeSort_of_pairwise (by decide +kernel)]
    decide +kernel
  have free : generator.FreeOfBackups tree root := by
    constructor
    all_goals
      rw [headers]
      decide +kernel
  obtain ⟨summary, ran⟩ := exists_generate_eq
    (show (generator.generate tree ⟨"p"⟩).result.isOk = true by decide +kernel)
  have updated : (generator.generate tree ⟨"p"⟩).result.toOption.map GenerationSummary.updated =
      some [⟨"p/Scripts/Door.h"⟩] := by
    decide +kernel
  rw [congrArg GenerationResult.result ran] at updated
  obtain ⟨_, _, frame⟩ := generate_frame proper (by decide +kernel) free
  exact ⟨_, summary, ran, Option.some.inj updated,
    frame (isDirectory_iff.mpr ⟨_, leads⟩) _ summary ran⟩

end Generator

end ScriptRegistrar
