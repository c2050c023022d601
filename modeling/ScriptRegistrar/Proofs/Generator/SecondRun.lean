import ScriptRegistrar.Proofs.Generator.IdleRuns

/-!
# Running again

A second run finds the headers that the first one left.  It changes nothing if and only if no
class that is found then has anything left to change in its header, and the aggregate is the same
for the classes found then as for those found before.
-/

namespace ScriptRegistrar

open Text FileTree

namespace Generator

variable {generator : Generator} {tree first : FileTree} {root path project : Path}
  {directory : Location}

/-- The classes that are found in a header after a run. -/
def recordsAfter (generator : Generator) (tree : FileTree) (root path : Path) :
    List ScriptClass :=
  match tree.read path with
  | .ok content => generator.recordsOf root path (generator.contentAfter tree root path content)
  | .error _ => []

theorem header_of_mem_recordsAfter {script : ScriptClass}
    (found : script ∈ generator.recordsAfter tree root path) :
    script.header = (path.relativeTo? root).getD path := by
  rw [recordsAfter] at found
  split at found
  · exact header_of_mem_recordsOf found
  · cases found

/-- Whether the headers of a project are settled once they are brought up to date: the classes
found in the text that is left change nothing in it, and their aggregate is that of the classes
found before. -/
structure Settles (generator : Generator) (tree : FileTree) (root : Path) : Prop where
  headers : ∀ path ∈ generator.headers tree root, ∀ content, tree.read path = .ok content →
    generator.UpToDate tree path
      ((generator.recordsAfter tree root path).filter ScriptClass.wantsInjection)
      (generator.contentAfter tree root path content)
  aggregate : generator.aggregate? tree root
      ((generator.headers tree root).flatMap (generator.recordsAfter tree root)) =
    generator.aggregate? tree root
      ((generator.headers tree root).flatMap (generator.recordsIn tree root))

section

variable (proper : tree.Proper) (leads : tree.LeadsToDirectory root directory)
  (untangled : generator.Untangled tree root) {text : String} {written : FileTree}
  (wrote : tree.writeText (generator.aggregatePath root) text = .ok written)
  (outcome : RunOutcome generator tree root text first)

include proper leads outcome

/-- A run adds no header and removes none. -/
theorem isFileAt_after (untangled : generator.Untangled tree root) {names : Location}
    (isHeader : generator.isHeader root (root.below names) = true) :
    first.IsFileAt (directory ++ names) ↔ tree.IsFileAt (directory ++ names) := by
  by_cases touched : directory ++ names ∈ tree.statedLocation (generator.aggregatePath root) ::
      touchedBy tree (generator.headers tree root)
  · rcases List.mem_cons.mp touched with atAggregate | atHeader
    · have isDirectory := isDirectory_of_aggregate leads proper isHeader atAggregate
      have stillDirectory := (outcome.changes.same.directory _).mpr isDirectory
      exact iff_of_false (fun isFile => isFile.not_directory stillDirectory)
        fun isFile => isFile.not_directory isDirectory
    · obtain ⟨path, listed, stated | backup⟩ := mem_touchedBy.mp atHeader
      · obtain ⟨_, others, below⟩ := (mem_headers proper leads).mp listed
        have stays := outcome.stays path listed
        rw [← stated] at stays
        have isFile := below.isFile
        rw [← below.statedLocation_eq leads, ← stated] at isFile
        exact iff_of_true stays isFile
      · -- A file that is a header is the backup of none.
        have noFile : ¬ tree.IsFileAt (directory ++ names) := by
          intro isFile
          have below := isPathBelow_of_listed proper leads (proper.mem_fileLocations.mpr isFile)
          refine untangled.backups path listed (root.below names)
            ((mem_headers proper leads).mpr ⟨isHeader, names, below⟩) ?_
          rw [below.statedLocation_eq leads, backup]
        refine iff_of_false ?_ noFile
        rintro ⟨content, stands⟩
        rcases outcome.backup path listed with none | same
        · rw [backup, none] at stands
          cases stands
        · exact noFile ⟨content, by rw [← stands, backup, same]⟩
  · rw [IsFileAt, IsFileAt, outcome.changes.outside _ touched]

theorem headers_after (untangled : generator.Untangled tree root) :
    generator.headers first root = generator.headers tree root :=
  headers_of_sameDirectories proper outcome.changes.proper outcome.changes.same leads
    fun _ => isFileAt_after proper leads outcome untangled

theorem reads_before (listed : path ∈ generator.headers tree root) {left : Bytes}
    (reads : first.read path = .ok left) : ∃ content, tree.read path = .ok content := by
  obtain ⟨location, located, _⟩ := read_eq_ok_iff.mp reads
  obtain ⟨_, names, below⟩ := (mem_headers proper leads).mp listed
  obtain ⟨content, stands⟩ := below.isFile
  have same := outcome.changes.same
  have stated : location = directory ++ names := by
    rw [eq_of_locate located, same.statedLocation, below.statedLocation_eq leads]
  rw [← stated] at stands
  exact ⟨content, read_eq_ok_iff.mpr
    ⟨location, same.symm.locate located (by rw [stands]; rfl), stands⟩⟩

theorem recordsIn_after (listed : path ∈ generator.headers tree root) :
    generator.recordsIn first root path = generator.recordsAfter tree root path := by
  cases before : tree.read path with
  | ok content =>
      obtain ⟨left, reads, _, sameText⟩ := outcome.header path listed content before
      rw [recordsIn_of_read reads, recordsAfter, before]
      simp only [recordsOf, sameText]
  | error failure =>
      rw [recordsAfter, before]
      refine recordsIn_of_unread fun left reads => ?_
      obtain ⟨content, couldRead⟩ := reads_before proper leads outcome listed reads
      rw [before] at couldRead
      cases couldRead

theorem isByHand?_after (untangled : generator.Untangled tree root) {script : ScriptClass}
    (listed : path ∈ generator.headers tree root)
    (ofHeader : script.header = (path.relativeTo? root).getD path) :
    HandRegistration.isByHand? generator.config first root script =
      HandRegistration.isByHand? generator.config tree root script := by
  obtain ⟨_, names, below⟩ := (mem_headers proper leads).mp listed
  refine HandRegistration.isByHand?_of_changesOnly outcome.changes fun sibling beside => ?_
  rw [HandRegistration.siblingPath?, ofHeader, below.join_relative leads] at beside
  exact untangled.siblings path listed sibling beside

theorem aggregate?_after (untangled : generator.Untangled tree root) {scripts : List ScriptClass}
    (ofHeaders : ∀ script ∈ scripts, ∃ path ∈ generator.headers tree root,
      script.header = (path.relativeTo? root).getD path) :
    generator.aggregate? first root scripts = generator.aggregate? tree root scripts := by
  refine aggregate?_congr fun script found => ?_
  obtain ⟨path, listed, ofHeader⟩ := ofHeaders script (List.mem_of_mem_filter found)
  exact isByHand?_after proper leads outcome untangled listed ofHeader

omit leads in
theorem upToDate_after {content left : Bytes} {scripts : List ScriptClass}
    (before : tree.read path = .ok content) (reads : first.read path = .ok left)
    (sameText : Utf8.SameText left (generator.contentAfter tree root path content)) :
    generator.UpToDate first path scripts left ↔
      generator.UpToDate tree path scripts (generator.contentAfter tree root path content) := by
  rw [UpToDate, UpToDate, sameText.1, canBackUp_of_sameDirectories proper outcome.changes.proper
    outcome.changes.same before reads]

theorem headers_upToDate_after :
    (∀ path ∈ generator.headers tree root, ∀ left, first.read path = .ok left →
      generator.UpToDate first path (generator.wantedIn first root path) left) ↔
    ∀ path ∈ generator.headers tree root, ∀ content, tree.read path = .ok content →
      generator.UpToDate tree path
        ((generator.recordsAfter tree root path).filter ScriptClass.wantsInjection)
        (generator.contentAfter tree root path content) := by
  refine forall₂_congr fun path listed => ?_
  rw [wantedIn, recordsIn_after proper leads outcome listed]
  constructor
  · intro upToDate content before
    obtain ⟨left, reads, sameText⟩ := outcome.header path listed content before
    exact (upToDate_after proper outcome before reads sameText).mp (upToDate left reads)
  · intro upToDate left reads
    obtain ⟨content, before⟩ := reads_before proper leads outcome listed reads
    obtain ⟨found, readsFound, sameText⟩ := outcome.header path listed content before
    rw [reads] at readsFound
    cases readsFound
    exact (upToDate_after proper outcome before reads sameText).mpr (upToDate content before)

theorem aggregate?_of_headers_after (untangled : generator.Untangled tree root) :
    generator.aggregate? first root
        ((generator.headers tree root).flatMap (generator.recordsIn first root)) =
      generator.aggregate? tree root
        ((generator.headers tree root).flatMap (generator.recordsAfter tree root)) := by
  rw [List.flatMap_congr fun path listed => recordsIn_after proper leads outcome listed]
  refine aggregate?_after proper leads outcome untangled fun script found => ?_
  obtain ⟨path, listed, foundHere⟩ := List.mem_flatMap.mp found
  exact ⟨path, listed, header_of_mem_recordsAfter foundHere⟩

end

theorem runOutcome_of_generate (atRoot : generator.config.scriptsRoot project = root)
    (proper : tree.Proper) (leads : tree.LeadsToDirectory root directory)
    (untangled : generator.Untangled tree root) {summary : GenerationSummary}
    (ran : generator.generate tree project = ⟨first, .ok summary⟩) :
    ∃ text written,
      generator.aggregate? tree root
          ((generator.headers tree root).flatMap (generator.recordsIn tree root)) = some text ∧
        tree.writeText (generator.aggregatePath root) text = .ok written ∧
          RunOutcome generator tree root text first := by
  have isDirectory := isDirectory_iff.mpr ⟨directory, leads⟩
  have records : (generator.scan tree project).records = _ := records_scan atRoot isDirectory
  obtain ⟨text, written, rendered, wrote⟩ := written_of_generate atRoot isDirectory ran
  rw [generate_of_written atRoot isDirectory rendered wrote, records, List.filter_flatMap] at ran
  cases ran
  exact ⟨text, written, records ▸ rendered, wrote, runOutcome proper leads untangled.toSpaced wrote⟩

/-- After a run that ended well, the project is current if and only if its headers are settled. -/
theorem current_iff_settles (atRoot : generator.config.scriptsRoot project = root)
    (proper : tree.Proper) (leads : tree.LeadsToDirectory root directory)
    (untangled : generator.Untangled tree root) {summary : GenerationSummary}
    (ran : generator.generate tree project = ⟨first, .ok summary⟩) :
    generator.Current first root ↔ generator.Settles tree root := by
  obtain ⟨text, written, rendered, wrote, outcome⟩ :=
    runOutcome_of_generate atRoot proper leads untangled ran
  have same := outcome.changes.same
  have headers := headers_after proper leads outcome untangled
  have upToDate := headers_upToDate_after proper leads outcome
  have aggregates := aggregate?_of_headers_after proper leads outcome untangled
  have readsAggregate : first.read (generator.aggregatePath root) = .ok (Utf8.encode text) := by
    obtain ⟨location, located, _⟩ := read_eq_ok_iff.mp (read_of_write proper wrote)
    have stated := eq_of_locate located
    rw [(changesOnly_of_write proper wrote).1.same.statedLocation] at stated
    have stands := outcome.aggregate
    rw [← stated] at stands
    exact read_eq_ok_iff.mpr ⟨location,
      ((changesOnly_of_write proper wrote).1.same.symm.trans same).locate located
        (by rw [stands]; rfl), stands⟩
  constructor
  · rintro ⟨⟨textAgain, renderedAgain, readsAgain⟩, current⟩
    rw [headers] at renderedAgain current
    rw [readsAggregate] at readsAgain
    have sameText : text = textAgain := by
      simp only [Except.ok.injEq] at readsAgain
      exact Utf8.encode_injective readsAgain
    exact ⟨upToDate.mp current, by rw [← aggregates, renderedAgain, ← sameText, rendered]⟩
  · rintro ⟨settled, sameAggregate⟩
    refine ⟨⟨text, ?_, readsAggregate⟩, ?_⟩
    · rw [headers, aggregates, sameAggregate, rendered]
    · rw [headers]
      exact upToDate.mpr settled

/-- The classes that are found in the text of a header. -/
def classesOf (generator : Generator) (root path : Path) (text : String) : List ScriptClass :=
  (generator.scanner.scanHeader text ((path.relativeTo? root).getD path)).records

/-- The text that a run leaves of a header that can be replaced. -/
def textAfter (generator : Generator) (root path : Path) (text : String) : String :=
  generator.injectedAll ((generator.classesOf root path text).filter ScriptClass.wantsInjection) text

@[simp] theorem recordsOf_encode (text : String) :
    generator.recordsOf root path (Utf8.encode text) = generator.classesOf root path text := by
  rw [recordsOf, Utf8.decodeLossy_eq_of_decode? (Utf8.decode?_encode text), classesOf]

section

variable {text : String} (reads : tree.read path = .ok (Utf8.encode text))
  (possible : tree.canBackUp path = true)

include reads

theorem recordsIn_encode :
    generator.recordsIn tree root path = generator.classesOf root path text := by
  simp [recordsIn_of_read reads]

include possible

@[simp] theorem contentAfter_encode : generator.contentAfter tree root path (Utf8.encode text) =
    Utf8.encode (generator.textAfter root path text) := by
  rw [contentAfter, wantedIn, recordsIn_encode reads]
  simp only [updatedContent, Utf8.decode?_encode, if_pos possible, textAfter]

theorem recordsAfter_encode : generator.recordsAfter tree root path =
    generator.classesOf root path (generator.textAfter root path text) := by
  simp only [recordsAfter, reads]
  rw [contentAfter_encode reads possible, recordsOf_encode]

omit reads in
theorem upToDate_encode {scripts : List ScriptClass} :
    generator.UpToDate tree path scripts (Utf8.encode text) ↔
      ∀ script ∈ scripts, generator.injected script text = text := by
  simp only [UpToDate, Utf8.decode?_encode, Option.some.injEq, forall_eq',
    forall_prop_of_true possible]

/-- Whether a project of one header is settled is decided by the text of the header. -/
theorem settles_iff_of_header (only : generator.headers tree root = [path]) :
    generator.Settles tree root ↔
      (∀ script ∈ (generator.classesOf root path (generator.textAfter root path text)).filter
          ScriptClass.wantsInjection,
        generator.injected script (generator.textAfter root path text) =
          generator.textAfter root path text) ∧
      generator.aggregate? tree root
          (generator.classesOf root path (generator.textAfter root path text)) =
        generator.aggregate? tree root (generator.classesOf root path text) := by
  rw [← upToDate_encode possible, ← recordsAfter_encode reads possible, ← recordsIn_encode reads]
  constructor
  · rintro ⟨headers, aggregate⟩
    have settled := headers path (by rw [only]; exact List.mem_singleton_self path) _ reads
    rw [contentAfter_encode reads possible] at settled
    rw [only, List.flatMap_singleton, List.flatMap_singleton] at aggregate
    exact ⟨settled, aggregate⟩
  · rintro ⟨settled, aggregate⟩
    refine ⟨?_, ?_⟩
    · rw [only, List.forall_mem_singleton]
      intro content readsContent
      rw [reads] at readsContent
      cases readsContent
      rw [contentAfter_encode reads possible]
      exact settled
    · rw [only, List.flatMap_singleton, List.flatMap_singleton]
      exact aggregate

end

/-- After a run that ended well, running again ends well and changes nothing if and only if the
project is then current.  If the names of its files are kept apart, this is decided by the text of
its headers. -/
theorem runsIdle_generate_iff {summary : GenerationSummary} (proper : tree.Proper)
    (ran : generator.generate tree project = ⟨first, .ok summary⟩) :
    (generator.RunsIdle first project ↔
      (first.isDirectory (generator.config.scriptsRoot project) = true →
        generator.Current first (generator.config.scriptsRoot project))) ∧
    (generator.Untangled tree (generator.config.scriptsRoot project) →
      (generator.RunsIdle first project ↔
        (tree.isDirectory (generator.config.scriptsRoot project) = true →
          generator.Settles tree (generator.config.scriptsRoot project)))) := by
  have properAfter : first.Proper := by
    have kept : (generator.generate tree project).tree.Proper := proper_generate proper
    rwa [ran] at kept
  have idle : generator.RunsIdle first project ↔ _ := runsIdle_iff properAfter
  refine ⟨idle, fun untangled => ?_⟩
  by_cases isDirectory : tree.isDirectory (generator.config.scriptsRoot project) = true
  · obtain ⟨directory, leads⟩ := isDirectory_iff.mp isDirectory
    obtain ⟨_, _, _, _, outcome⟩ := runOutcome_of_generate rfl proper leads untangled ran
    have isDirectoryAfter := isDirectory_iff.mpr
      ⟨directory, leads.of_sameDirectories outcome.changes.same⟩
    rw [idle, forall_prop_of_true isDirectoryAfter, forall_prop_of_true isDirectory]
    exact current_iff_settles rfl proper leads untangled ran
  · rw [generate_of_not_directory (by simpa using isDirectory)] at ran
    cases ran
    rw [idle]
    exact iff_of_true (fun directory => (isDirectory directory).elim)
      fun directory => (isDirectory directory).elim

theorem runsIdle_generate_door :
    let generator : Generator :=
      ⟨{ baseClass := "B", markers := { message := "M" } }, .engineDefault, rfl⟩
    let tree : FileTree := ⟨[(["p"], .directory), (["p", "Scripts"], .directory),
      (["p", "Scripts", "A.h"],
        .file (Utf8.encode "class A:public B\x7bA()\x7b\x7dM()void F();\x7d;"))], []⟩
    ∃ first summary, generator.generate tree ⟨"p"⟩ = ⟨first, .ok summary⟩ ∧
      generator.RunsIdle first ⟨"p"⟩ := by
  intro generator tree
  let root := generator.config.scriptsRoot ⟨"p"⟩
  let header : Path := ⟨"p/Scripts/A.h"⟩
  have proper : tree.Proper := by decide +kernel
  have untangled : generator.Untangled tree root := by decide +kernel
  obtain ⟨summary, ran⟩ := exists_generate_eq
    (show (generator.generate tree ⟨"p"⟩).result.isOk = true by decide +kernel)
  have settles := @settles_iff_of_header generator tree root header
    "class A:public B\x7bA()\x7b\x7dM()void F();\x7d;" (by decide +kernel) (by decide +kernel)
    (by decide +kernel)
  refine ⟨_, summary, ran, ((runsIdle_generate_iff proper ran).2 untangled).mpr fun _ =>
    settles.mpr ⟨?_, congrArg _ ?_⟩⟩
  · decide +kernel
  · decide +kernel

/-- Of two classes with one name, each run writes the messages of either into the constructor of
the first. -/
theorem generate_changes_again :
    ¬ ∀ (generator : Generator) (tree first : FileTree) (project : Path)
      (summary : GenerationSummary), tree.Proper →
      generator.generate tree project = ⟨first, .ok summary⟩ →
      generator.RunsIdle first project := by
  intro claimed
  let generator : Generator :=
    ⟨{ baseClass := "B", markers := { message := "M" } }, .engineDefault, rfl⟩
  let tree : FileTree := ⟨[(["p"], .directory), (["p", "Scripts"], .directory),
    (["p", "Scripts", "A.h"], .file (Utf8.encode
      "class A:public B\x7bA()\x7b\x7dM()void F();\x7d;class A:public B\x7bM()void G();\x7d;"))], []⟩
  let root := generator.config.scriptsRoot ⟨"p"⟩
  let header : Path := ⟨"p/Scripts/A.h"⟩
  have proper : tree.Proper := by decide +kernel
  have untangled : generator.Untangled tree root := by decide +kernel
  obtain ⟨directory, leads⟩ := isDirectory_iff.mp
    (show tree.isDirectory root = true by decide +kernel)
  obtain ⟨summary, ran⟩ := exists_generate_eq
    (show (generator.generate tree ⟨"p"⟩).result.isOk = true by decide +kernel)
  obtain ⟨_, _, _, _, outcome⟩ := runOutcome_of_generate rfl proper leads untangled ran
  have current := (runsIdle_iff outcome.changes.proper).mp
    (claimed generator tree _ ⟨"p"⟩ summary proper ran)
    (isDirectory_iff.mpr ⟨directory, leads.of_sameDirectories outcome.changes.same⟩)
  have settles := (current_iff_settles rfl proper leads untangled ran).mp current
  have settled := (@settles_iff_of_header generator tree root header
    "class A:public B\x7bA()\x7b\x7dM()void F();\x7d;class A:public B\x7bM()void G();\x7d;"
    (by decide +kernel) (by decide +kernel) (by decide +kernel)).mp settles
  exact absurd settled.1 (by decide +kernel)

end Generator

end ScriptRegistrar
