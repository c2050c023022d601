import ScriptRegistrar.Proofs.Generator.Headers
import ScriptRegistrar.Proofs.Generator.HeaderUpdates

/-!
# What a run does

A run reads the headers, writes the aggregate and brings the headers up to date.  If the names of
headers, backups, sources and the aggregate are kept apart, each of these steps sees the others'
files as they were before the run.
-/

namespace ScriptRegistrar

open Text FileTree

/-- Whether a class is registered by hand is the same in every tree in which the source beside its
header is not touched. -/
theorem HandRegistration.isByHand?_of_changesOnly {config : Config} {tree other : FileTree}
    {touched : List Location} (changes : ChangesOnly touched tree other) {root : Path}
    {script : ScriptClass}
    (untouched : ∀ sibling, siblingPath? config root script.header = some sibling →
      tree.statedLocation sibling ∉ touched) :
    isByHand? config other root script = isByHand? config tree root script := by
  unfold isByHand?
  cases beside : siblingPath? config root script.header with
  | none => rfl
  | some sibling =>
      have reads : ∀ text, other.readText sibling = .ok text ↔ tree.readText sibling = .ok text := by
        intro text
        rw [readText_eq_ok_iff, readText_eq_ok_iff]
        exact exists_congr fun content => and_congr_left fun _ =>
          Generator.read_of_changesOnly changes (untouched sibling beside)
      simp only [Option.bind_eq_bind, Option.bind_some]
      cases before : tree.readText sibling with
      | ok text => rw [(reads text).mpr before]
      | error failure =>
          cases after : other.readText sibling with
          | error cause => rfl
          | ok text =>
              rw [(reads text).mp after] at before
              cases before

namespace Aggregate

theorem render_congr {names : RegistrationNames} {byHand other : ScriptClass → Bool}
    {scripts : List ScriptClass}
    (same : ∀ script ∈ scripts.filter (!·.excluded), byHand script = other script) :
    render names byHand scripts = render names other scripts := by
  have blocks : (scripts.filter (!·.excluded)).map (classBlock names byHand) =
      (scripts.filter (!·.excluded)).map (classBlock names other) := by
    refine List.map_congr_left fun script listed => ?_
    rw [classBlock, classBlock, same script listed]
  simp only [render, blocks]

end Aggregate

namespace Generator

variable {generator : Generator} {tree other : FileTree} {root path project : Path}
  {directory : Location}

/-- The classes found in the content of a header. -/
def recordsOf (generator : Generator) (root path : Path) (content : Bytes) : List ScriptClass :=
  (generator.scanner.scanHeader (Utf8.decodeLossy content)
    ((path.relativeTo? root).getD path)).records

/-- The classes found in a header of a tree. -/
def recordsIn (generator : Generator) (tree : FileTree) (root path : Path) : List ScriptClass :=
  (generator.scanFile tree root path).records

theorem recordsIn_of_read {content : Bytes} (reads : tree.read path = .ok content) :
    generator.recordsIn tree root path = generator.recordsOf root path content := by
  simp only [recordsIn, scanFile, reads, recordsOf]

theorem recordsIn_of_unread (unread : ∀ content, tree.read path ≠ .ok content) :
    generator.recordsIn tree root path = [] := by
  cases reads : tree.read path with
  | error failure => simp only [recordsIn, scanFile, reads]
  | ok content => exact (unread content reads).elim

theorem header_of_mem_recordsOf {script : ScriptClass} {content : Bytes}
    (listed : script ∈ generator.recordsOf root path content) :
    script.header = (path.relativeTo? root).getD path := by
  rw [recordsOf, Scanner.records_scanHeader] at listed
  obtain ⟨place, _, rfl⟩ := List.mem_map.mp listed
  rfl

theorem header_of_mem_recordsIn {script : ScriptClass}
    (listed : script ∈ generator.recordsIn tree root path) :
    script.header = (path.relativeTo? root).getD path := by
  cases reads : tree.read path with
  | error failure =>
      rw [recordsIn_of_unread (by simp [reads])] at listed
      cases listed
  | ok content =>
      rw [recordsIn_of_read reads] at listed
      exact header_of_mem_recordsOf listed

theorem aggregate?_congr {scripts : List ScriptClass}
    (same : ∀ script ∈ scripts.filter (!·.excluded),
      HandRegistration.isByHand? generator.config other root script =
        HandRegistration.isByHand? generator.config tree root script) :
    generator.aggregate? other root scripts = generator.aggregate? tree root scripts := by
  have all : (scripts.filter (!·.excluded)).all (fun script =>
      (HandRegistration.isByHand? generator.config other root script).isSome) =
        (scripts.filter (!·.excluded)).all (fun script =>
          (HandRegistration.isByHand? generator.config tree root script).isSome) := by
    rw [Bool.eq_iff_iff, List.all_eq_true, List.all_eq_true]
    refine forall₂_congr fun script listed => ?_
    rw [same script listed]
  simp only [aggregate?, all]
  rw [Aggregate.render_congr fun script listed => by rw [same script listed]]

/-- A run that does not fail ends with a summary. -/
theorem exists_generate_eq (isOk : (generator.generate tree project).result.isOk = true) :
    ∃ summary, generator.generate tree project =
      ⟨(generator.generate tree project).tree, .ok summary⟩ := by
  generalize generator.generate tree project = run at isOk ⊢
  obtain ⟨after, result⟩ := run
  cases result with
  | ok summary => exact ⟨summary, rfl⟩
  | error failure => cases isOk

theorem generate_of_not_directory
    (notDirectory : tree.isDirectory (generator.config.scriptsRoot project) = false) :
    generator.generate tree project = ⟨tree, .ok { scan := {} }⟩ := by
  delta generate
  simp [scan, notDirectory]

section

variable (atRoot : generator.config.scriptsRoot project = root)
  (isDirectory : tree.isDirectory root = true)

include atRoot isDirectory

theorem scriptsRoot_scan : (generator.scan tree project).scriptsRoot = some root := by
  rw [scan, atRoot, if_pos isDirectory]

theorem records_scan : (generator.scan tree project).records =
    (generator.headers tree root).flatMap (generator.recordsIn tree root) := by
  rw [scan, atRoot, if_pos isDirectory]
  exact List.flatMap_map ..

/-- A run that writes the aggregate ends well. -/
theorem generate_of_written {text : String} {written : FileTree}
    (rendered : generator.aggregate? tree root (generator.scan tree project).records = some text)
    (wrote : tree.writeText (generator.aggregatePath root) text = .ok written) :
    generator.generate tree project =
      ⟨(generator.injectAll root written
          ((generator.scan tree project).records.filter ScriptClass.wantsInjection)).1,
        .ok (summarize (generator.scan tree project) (generator.aggregatePath root)
          (generator.injectAll root written
            ((generator.scan tree project).records.filter ScriptClass.wantsInjection)).2)⟩ := by
  delta generate
  simp only [scriptsRoot_scan atRoot isDirectory, rendered, wrote]

/-- A run that ends well has written the aggregate. -/
theorem written_of_generate {after : FileTree} {summary : GenerationSummary}
    (ran : generator.generate tree project = ⟨after, .ok summary⟩) :
    ∃ text written,
      generator.aggregate? tree root (generator.scan tree project).records = some text ∧
        tree.writeText (generator.aggregatePath root) text = .ok written := by
  delta generate at ran
  simp only [scriptsRoot_scan atRoot isDirectory] at ran
  split at ran
  · cases ran
  · rename_i text rendered
    split at ran
    · cases ran
    · rename_i written wrote
      exact ⟨text, written, rendered, wrote⟩

end

/-- The classes of a header that want registrations in their constructors. -/
def wantedIn (generator : Generator) (tree : FileTree) (root path : Path) : List ScriptClass :=
  (generator.recordsIn tree root path).filter ScriptClass.wantsInjection

/-- What a run leaves in a header. -/
def contentAfter (generator : Generator) (tree : FileTree) (root path : Path) (content : Bytes) :
    Bytes :=
  generator.updatedContent tree path (generator.wantedIn tree root path) content

/-- Whether no header's backup is a header or the aggregate. -/
structure Spaced (generator : Generator) (tree : FileTree) (root : Path) : Prop where
  backups : ∀ left ∈ generator.headers tree root, ∀ right ∈ generator.headers tree root,
    backupOf (tree.statedLocation left) ≠ tree.statedLocation right
  aggregate : ∀ path ∈ generator.headers tree root,
    backupOf (tree.statedLocation path) ≠ tree.statedLocation (generator.aggregatePath root)

instance (generator : Generator) (tree : FileTree) (root : Path) :
    Decidable (generator.Spaced tree root) :=
  decidable_of_iff
    ((∀ left ∈ generator.headers tree root, ∀ right ∈ generator.headers tree root,
        backupOf (tree.statedLocation left) ≠ tree.statedLocation right) ∧
      ∀ path ∈ generator.headers tree root,
        backupOf (tree.statedLocation path) ≠ tree.statedLocation (generator.aggregatePath root))
    ⟨fun ⟨backups, aggregate⟩ => ⟨backups, aggregate⟩,
      fun spaced => ⟨spaced.backups, spaced.aggregate⟩⟩

/-- Whether the headers, their backups, the sources beside them and the aggregate are kept
apart. -/
structure Untangled (generator : Generator) (tree : FileTree) (root : Path) : Prop
    extends Spaced generator tree root where
  siblings : ∀ path ∈ generator.headers tree root, ∀ sibling,
    path.withExtension? generator.config.sourceExtension = some sibling →
      tree.statedLocation sibling ∉ tree.statedLocation (generator.aggregatePath root) ::
        touchedBy tree (generator.headers tree root)

instance (generator : Generator) (tree : FileTree) (root : Path) :
    Decidable (generator.Untangled tree root) :=
  decidable_of_iff
    (generator.Spaced tree root ∧ ∀ path ∈ generator.headers tree root,
      ∀ sibling ∈ path.withExtension? generator.config.sourceExtension,
        tree.statedLocation sibling ∉ tree.statedLocation (generator.aggregatePath root) ::
          touchedBy tree (generator.headers tree root))
    ⟨fun ⟨spaced, siblings⟩ => ⟨spaced, siblings⟩,
      fun untangled => ⟨untangled.toSpaced, untangled.siblings⟩⟩

/-- What a run does to a tree. -/
structure RunOutcome (generator : Generator) (tree : FileTree) (root : Path) (text : String)
    (after : FileTree) : Prop where
  changes : ChangesOnly (tree.statedLocation (generator.aggregatePath root) ::
    touchedBy tree (generator.headers tree root)) tree after
  aggregate : after.standsAt? (tree.statedLocation (generator.aggregatePath root)) =
    some (.file (Utf8.encode text))
  header : ∀ path ∈ generator.headers tree root, ∀ content, tree.read path = .ok content →
    ∃ left, after.read path = .ok left ∧
      Utf8.SameText left (generator.contentAfter tree root path content)
  stays : ∀ path ∈ generator.headers tree root, after.IsFileAt (tree.statedLocation path)
  backup : ∀ path ∈ generator.headers tree root,
    after.standsAt? (backupOf (tree.statedLocation path)) = none ∨
      after.standsAt? (backupOf (tree.statedLocation path)) =
        tree.standsAt? (backupOf (tree.statedLocation path))

theorem join_header_of_mem_wantedIn (proper : tree.Proper)
    (leads : tree.LeadsToDirectory root directory) (listed : path ∈ generator.headers tree root)
    {other : FileTree} {script : ScriptClass} (wanted : script ∈ generator.wantedIn other root path) :
    root.join script.header = path := by
  obtain ⟨_, names, below⟩ := (mem_headers proper leads).mp listed
  rw [header_of_mem_recordsIn (List.mem_of_mem_filter wanted), below.join_relative leads]

theorem exists_read_of_wantedIn (someScripts : generator.wantedIn tree root path ≠ []) :
    ∃ content, tree.read path = .ok content := by
  by_contra unread
  apply someScripts
  rw [wantedIn, recordsIn_of_unread fun content reads => unread ⟨content, reads⟩]
  rfl

theorem runOutcome (proper : tree.Proper) (leads : tree.LeadsToDirectory root directory)
    (spaced : generator.Spaced tree root) {text : String} {written : FileTree}
    (wrote : tree.writeText (generator.aggregatePath root) text = .ok written) :
    RunOutcome generator tree root text
      (generator.injectAll root written
        ((generator.headers tree root).flatMap (generator.wantedIn tree root))).1 := by
  obtain ⟨writes, here⟩ := changesOnly_of_write proper wrote
  have same := writes.same
  have notAggregate := @statedLocation_ne_aggregatePath generator tree _ _ leads proper
  have reads : ∀ path ∈ generator.headers tree root, ∀ content,
      written.read path = .ok content ↔ tree.read path = .ok content := by
    intro path listed content
    exact read_of_changesOnly writes (by simpa using notAggregate path listed)
  have outcome := @headersOutcome generator written root writes.proper
    (generator.headers tree root) (generator.wantedIn tree root) ?_ ?_ ⟨?_, ?_⟩
  · have stated : ∀ path, written.statedLocation path = tree.statedLocation path :=
      same.statedLocation
    have changes := outcome.changes
    rw [show touchedBy written (generator.headers tree root) =
      touchedBy tree (generator.headers tree root) by simp only [touchedBy, stated]] at changes
    have possible : ∀ path ∈ generator.headers tree root, ∀ content,
        tree.read path = .ok content → written.canBackUp path = tree.canBackUp path :=
      fun path listed content readsPath => canBackUp_of_sameDirectories proper writes.proper same
        readsPath ((reads path listed content).mpr readsPath)
    have aggregateApart : tree.statedLocation (generator.aggregatePath root) ∉
        touchedBy tree (generator.headers tree root) := by
      intro touched
      obtain ⟨path, listed, header | backup⟩ := mem_touchedBy.mp touched
      · exact notAggregate path listed header.symm
      · exact spaced.aggregate path listed backup.symm
    constructor
    case changes =>
      exact (writes.mono fun location touched =>
        List.mem_cons.mpr (Or.inl (List.mem_singleton.mp touched))).trans
          (changes.mono fun location touched => List.mem_cons_of_mem _ touched)
    case aggregate => rw [changes.outside _ aggregateApart, here]
    case header =>
      intro path listed content readsPath
      obtain ⟨left, stands, sameText⟩ :=
        outcome.header path listed content ((reads path listed content).mpr readsPath)
      obtain ⟨location, located, _⟩ := read_eq_ok_iff.mp readsPath
      rw [stated, ← eq_of_locate located] at stands
      have toAfter := same.trans changes.same
      refine ⟨left, read_eq_ok_iff.mpr ⟨location,
        toAfter.locate located (by rw [stands]; rfl), stands⟩, ?_⟩
      rwa [updatedContent, possible path listed content readsPath, ← updatedContent] at sameText
    case stays =>
      intro path listed
      obtain ⟨_, names, below⟩ := (mem_headers proper leads).mp listed
      obtain ⟨content, stands⟩ := below.isFile
      rw [← below.statedLocation_eq leads,
        ← writes.outside _ (by simpa using notAggregate path listed)] at stands
      have isFile := outcome.stays path listed
      rw [stated] at isFile
      exact isFile ⟨content, stands⟩
    case backup =>
      intro path listed
      have backup := outcome.backup path listed
      rw [stated] at backup
      rwa [writes.outside _ (by simpa using spaced.aggregate path listed)] at backup
  · exact fun path listed script wanted => join_header_of_mem_wantedIn proper leads listed wanted
  · intro path listed someScripts
    obtain ⟨content, readsPath⟩ := exists_read_of_wantedIn someScripts
    exact ⟨content, (reads path listed content).mpr readsPath⟩
  · simpa only [same.statedLocation] using pairwise_headers proper leads
  · simpa only [same.statedLocation] using spaced.backups

end Generator

end ScriptRegistrar
