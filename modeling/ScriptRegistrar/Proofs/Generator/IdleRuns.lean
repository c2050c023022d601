import ScriptRegistrar.Proofs.Generator.Runs

/-!
# Runs that change nothing

A run changes nothing if and only if the project is current: the aggregate is the one that would be
written, and no class has anything to change in its header.
-/

namespace ScriptRegistrar

open Text FileTree

namespace Generator

variable {generator : Generator} {tree : FileTree} {root project : Path} {directory : Location}

/-- Whether a run ends well, updates no header and leaves every file as it is. -/
def RunsIdle (generator : Generator) (tree : FileTree) (project : Path) : Prop :=
  ∃ after summary, generator.generate tree project = ⟨after, .ok summary⟩ ∧
    summary.updated = [] ∧ ∀ location, after.standsAt? location = tree.standsAt? location

/-- Whether the aggregate and the headers of a project are as a run would leave them. -/
structure Current (generator : Generator) (tree : FileTree) (root : Path) : Prop where
  aggregate : ∃ text, generator.aggregate? tree root
      ((generator.headers tree root).flatMap (generator.recordsIn tree root)) = some text ∧
    tree.read (generator.aggregatePath root) = .ok (Utf8.encode text)
  headers : ∀ path ∈ generator.headers tree root, ∀ content, tree.read path = .ok content →
    generator.UpToDate tree path (generator.wantedIn tree root path) content

theorem leavesHeader_congr {other : FileTree} {path : Path} {script : ScriptClass}
    (proper : tree.Proper) (changes : ChangesOnly [] tree other) :
    generator.LeavesHeader other path script ↔ generator.LeavesHeader tree path script := by
  refine forall_congr' fun content => ?_
  have reads : other.read path = .ok content ↔ tree.read path = .ok content :=
    read_of_changesOnly changes (List.not_mem_nil)
  rw [reads]
  refine imp_congr_right fun before => ?_
  rw [UpToDate, UpToDate, canBackUp_of_sameDirectories proper changes.proper changes.same before
    (reads.mpr before)]

section

variable (proper : tree.Proper) (leads : tree.LeadsToDirectory root directory)

include proper leads

/-- The classes of a project leave their headers if and only if each header is up to date. -/
theorem leavesHeader_iff_upToDate :
    (∀ script ∈ (generator.headers tree root).flatMap (generator.wantedIn tree root),
      generator.LeavesHeader tree (root.join script.header) script) ↔
    ∀ path ∈ generator.headers tree root, ∀ content, tree.read path = .ok content →
      generator.UpToDate tree path (generator.wantedIn tree root path) content := by
  have leadsBack : ∀ path ∈ generator.headers tree root,
      ∀ script ∈ generator.wantedIn tree root path, root.join script.header = path := by
    intro path listed script wanted
    obtain ⟨_, names, below⟩ := (mem_headers proper leads).mp listed
    rw [header_of_mem_recordsIn (List.mem_filter.mp wanted).1, below.join_relative leads]
  constructor
  · intro leave path listed content reads
    rw [upToDate_iff_forall]
    intro script wanted
    have leaves := leave script (List.mem_flatMap.mpr ⟨path, listed, wanted⟩)
    rw [leadsBack path listed script wanted] at leaves
    exact leaves content reads
  · intro upToDate script found
    obtain ⟨path, listed, wanted⟩ := List.mem_flatMap.mp found
    rw [leadsBack path listed script wanted]
    intro content reads
    exact upToDate_iff_forall.mp (upToDate path listed content reads) script wanted

variable (atRoot : generator.config.scriptsRoot project = root)

include atRoot

theorem runsIdle_iff_current : generator.RunsIdle tree project ↔ generator.Current tree root := by
  have isDirectory := isDirectory_iff.mpr ⟨directory, leads⟩
  have records : (generator.scan tree project).records = _ := records_scan atRoot isDirectory
  have wanted : (generator.scan tree project).records.filter ScriptClass.wantsInjection =
      (generator.headers tree root).flatMap (generator.wantedIn tree root) := by
    rw [records, List.filter_flatMap]
    rfl
  constructor
  · rintro ⟨after, summary, ran, nothing, unchanged⟩
    obtain ⟨text, written, rendered, wrote⟩ := written_of_generate atRoot isDirectory ran
    obtain ⟨writes, _⟩ := changesOnly_of_write proper wrote
    rw [generate_of_written atRoot isDirectory rendered wrote, wanted] at ran
    cases ran
    have leave := (injectAll_idle_iff writes.proper).mp nothing
    rw [injectAll_of_leaves writes.proper leave] at unchanged
    have changesNothing : ChangesOnly [] tree written :=
      ⟨writes.proper, writes.same, fun location _ => unchanged location⟩
    refine ⟨⟨text, records ▸ rendered, ?_⟩, (leavesHeader_iff_upToDate proper leads).mp ?_⟩
    · exact (read_of_changesOnly changesNothing List.not_mem_nil).mp (read_of_write proper wrote)
    · exact fun script found => (leavesHeader_congr proper changesNothing).mp (leave script found)
  · rintro ⟨⟨text, rendered, reads⟩, upToDate⟩
    obtain ⟨written, wrote, changesNothing⟩ := write_of_read proper reads
    have leave := (leavesHeader_iff_upToDate proper leads).mpr upToDate
    have leaveWritten := fun script found =>
      (leavesHeader_congr proper changesNothing).mpr (leave script found)
    have ran := generate_of_written atRoot isDirectory (records ▸ rendered) wrote
    rw [wanted, injectAll_of_leaves changesNothing.proper leaveWritten] at ran
    refine ⟨_, _, ran, (injectAll_idle_iff changesNothing.proper).mpr leaveWritten, ?_⟩
    exact fun location => changesNothing.outside location List.not_mem_nil

end

theorem runsIdle_iff (proper : tree.Proper) :
    generator.RunsIdle tree project ↔
      (tree.isDirectory (generator.config.scriptsRoot project) = true →
        generator.Current tree (generator.config.scriptsRoot project)) := by
  by_cases isDirectory : tree.isDirectory (generator.config.scriptsRoot project) = true
  · obtain ⟨directory, leads⟩ := isDirectory_iff.mp isDirectory
    rw [forall_prop_of_true isDirectory]
    exact runsIdle_iff_current proper leads rfl
  · refine iff_of_true ?_ fun directory => (isDirectory directory).elim
    exact ⟨tree, { scan := {} }, generate_of_not_directory (by simpa using isDirectory), rfl,
      fun _ => rfl⟩

theorem proper_generate (proper : tree.Proper) :
    (generator.generate tree project).tree.Proper := by
  delta generate
  dsimp only
  split
  · exact proper
  · split
    · exact proper
    · split
      · exact proper
      · rename_i written wrote
        exact proper_injectAll (changesOnly_of_write proper wrote).1.proper _

end Generator

end ScriptRegistrar
