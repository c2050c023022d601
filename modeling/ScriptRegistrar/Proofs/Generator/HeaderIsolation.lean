import ScriptRegistrar.Proofs.Crediting
import ScriptRegistrar.Proofs.Generator.AlikeRuns

/-!
# One header does not disturb another

Two projects that differ in the content of one header, whatever it holds, are run alike: either
both runs end well or neither does, and what they read of the other headers, write for them and
note about them is the same.
-/

namespace ScriptRegistrar

open Text FileTree

namespace Generator

variable {generator : Generator} {tree other : FileTree} {touched : List Location}
  {root path project own : Path} {directory : Location}

/-- A file below a directory is read alike, or fails to be, in two trees that agree on it. -/
theorem IsPathBelow.read_eq {names : Location} (below : IsPathBelow tree root directory path names)
    (leads : tree.LeadsToDirectory root directory) (proper : tree.Proper)
    (changes : ChangesOnly touched tree other) (untouched : directory ++ names ∉ touched) :
    other.read path = tree.read path := by
  have otherLeads := leads.of_sameDirectories changes.same
  obtain ⟨base, parts⟩ := Path.piecesBelow_of_names leads.text_ne below.nonempty below.areNames
  have sameStands := changes.outside _ untouched
  have stands : (tree.standsAt? (directory ++ names)).isSome = true := by
    obtain ⟨content, isFile⟩ := below.isFile
    rw [isFile]
    rfl
  have sameFollow := follow_names_eq proper changes.proper changes.same below.areNames stands
    (by rwa [sameStands])
  have located : ∀ {tree : FileTree}, tree.LeadsToDirectory root directory →
      tree.locate (root.below names) =
        (checkPath (root.below names)).bind fun _ =>
          tree.follow directory (names.map String.toList) := by
    intro tree leads
    rw [locate, parts.inner, follow_append, leads.follow_base parts]
    rfl
  apply read_congr
  · rw [below.path_eq, located leads, located otherLeads, sameFollow]
  · intro location found
    rw [eq_of_locate found, below.statedLocation_eq leads, sameStands]

/-- The tree in which a run brings constructors up to date: the one with the aggregate. -/
def written? (generator : Generator) (tree : FileTree) (root : Path)
    (scripts : List ScriptClass) : Option FileTree :=
  (generator.aggregate? tree root scripts).bind fun text =>
    (tree.writeText (generator.aggregatePath root) text).toOption

/-- The notes that a run takes about the constructors of classes. -/
def injectionNotes (generator : Generator) (tree : FileTree) (root : Path)
    (scripts : List ScriptClass) : List InjectionNote :=
  (generator.written? tree root scripts).elim [] fun written =>
    (generator.injectAll root written (scripts.filter ScriptClass.wantsInjection)).2

/-- Whether a class is registered by hand, as far as a tree tells. -/
def byHandIn (generator : Generator) (tree : FileTree) (root : Path) (script : ScriptClass) :
    Bool :=
  HandRegistration.isByHand? generator.config tree root script = some true

/-- Whether the aggregate that a run left is that of the classes that it found. -/
def LeavesAggregate (generator : Generator) (tree : FileTree) (root : Path) (after : FileTree)
    (summary : GenerationSummary) : Prop :=
  after.standsAt? (tree.statedLocation (generator.aggregatePath root)) =
    some (.file (Utf8.encode (Aggregate.render generator.config.registration
      (generator.byHandIn tree root) summary.scan.records)))

/-- The classes of a report that did not opt out and are from other headers than one. -/
def classesApartFrom (root own : Path) (records : List ScriptClass) : List ScriptClass :=
  (records.filter (·.header ≠ (own.relativeTo? root).getD own)).filter (!·.excluded)

/-- What two runs have in common that differ in one header: what the other headers hold, which
include lines and class blocks of the aggregate come from them, and what is noted about them. -/
structure SameApartFrom (generator : Generator) (tree other : FileTree) (root own : Path)
    (after left : FileTree) (summary otherSummary : GenerationSummary) : Prop where
  contents : ∀ path ∈ generator.headers tree root, path ≠ own →
    left.standsAt? (tree.statedLocation path) = after.standsAt? (tree.statedLocation path)
  aggregate : generator.LeavesAggregate tree root after summary
  otherAggregate : generator.LeavesAggregate other root left otherSummary
  includes :
    (Aggregate.includePaths (otherSummary.scan.records.filter (!·.excluded))).filter
        (· ≠ ((own.relativeTo? root).getD own).slashed) =
      (Aggregate.includePaths (summary.scan.records.filter (!·.excluded))).filter
        (· ≠ ((own.relativeTo? root).getD own).slashed)
  blocks :
    (classesApartFrom root own otherSummary.scan.records).map
        (Aggregate.classBlock generator.config.registration (generator.byHandIn other root)) =
      (classesApartFrom root own summary.scan.records).map
        (Aggregate.classBlock generator.config.registration (generator.byHandIn tree root))
  skipped : otherSummary.scan.skipped.filter (·.path ≠ own) =
    summary.scan.skipped.filter (·.path ≠ own)
  notes :
    (generator.injectionNotes other root otherSummary.scan.records).filter (·.path ≠ own) =
      (generator.injectionNotes tree root summary.scan.records).filter (·.path ≠ own)
  withoutConstructor : summary.withoutConstructor =
    (generator.injectionNotes tree root summary.scan.records).filterMap
      InjectionNote.withoutConstructor?
  otherWithoutConstructor : otherSummary.withoutConstructor =
    (generator.injectionNotes other root otherSummary.scan.records).filterMap
      InjectionNote.withoutConstructor?

theorem filter_flatMap_congr {α β : Type} {listed : List α} {first second : α → List β}
    {keeps : β → Bool}
    (same : ∀ member ∈ listed, (first member).filter keeps = (second member).filter keeps) :
    (listed.flatMap first).filter keeps = (listed.flatMap second).filter keeps := by
  rw [List.filter_flatMap, List.filter_flatMap]
  exact List.flatMap_congr same

theorem path_of_mem_skipped {notice : SkipNotice}
    (noted : notice ∈ (generator.scanFile tree root path).skipped) : notice.path = path := by
  rw [scanFile] at noted
  split at noted
  · rw [List.mem_singleton.mp noted]
  · obtain ⟨failure, _, rfl⟩ := List.mem_map.mp noted
    rfl

theorem text_of_aggregate? {scripts : List ScriptClass} {text : String}
    (rendered : generator.aggregate? tree root scripts = some text) :
    text = Aggregate.render generator.config.registration (generator.byHandIn tree root) scripts := by
  unfold aggregate? at rendered
  dsimp only at rendered
  split at rendered
  · exact (Option.some.inj rendered).symm
  · cases rendered

/-- With an extension that can end a file name every class is looked up beside its header. -/
theorem exists_aggregate? (plain : '/' ∉ generator.config.sourceExtension.toList)
    (tree : FileTree) (scripts : List ScriptClass) :
    ∃ text, generator.aggregate? tree root scripts = some text := by
  have looksUp : ∀ script : ScriptClass,
      (HandRegistration.isByHand? generator.config tree root script).isSome = true := by
    intro script
    have noSlash : generator.config.sourceExtension.toList.contains '/' = false := by
      simpa using plain
    obtain ⟨sibling, beside⟩ : ∃ sibling,
        HandRegistration.siblingPath? generator.config root script.header = some sibling := by
      rw [HandRegistration.siblingPath?, Path.withExtension?, noSlash, if_neg Bool.false_ne_true]
      dsimp only
      split
      · exact ⟨_, rfl⟩
      · exact ⟨_, rfl⟩
    rw [HandRegistration.isByHand?, beside]
    simp only [Option.bind_eq_bind, Option.bind_some]
    cases tree.readText sibling with
    | ok text => rfl
    | error failure => rfl
  refine ⟨_, if_pos ?_⟩
  rw [List.all_eq_true]
  exact fun script _ => looksUp script

/-- Behind a run that ended well stand the classes found, the aggregate written and the notes. -/
theorem parts_of_generate (atRoot : generator.config.scriptsRoot project = root)
    (leads : tree.LeadsToDirectory root directory) {after : FileTree}
    {summary : GenerationSummary}
    (ran : generator.generate tree project = ⟨after, .ok summary⟩) :
    ∃ text written,
      text = Aggregate.render generator.config.registration (generator.byHandIn tree root)
          summary.scan.records ∧
        tree.writeText (generator.aggregatePath root) text = .ok written ∧
          summary.scan.records =
            (generator.headers tree root).flatMap (generator.recordsIn tree root) ∧
          generator.injectAll root written
              ((generator.headers tree root).flatMap (generator.wantedIn tree root)) =
            (after, generator.injectionNotes tree root summary.scan.records) ∧
          summary = summarize (generator.scan tree project) (generator.aggregatePath root)
            (generator.injectionNotes tree root summary.scan.records) := by
  have isDirectory := isDirectory_iff.mpr ⟨directory, leads⟩
  have records : (generator.scan tree project).records = _ := records_scan atRoot isDirectory
  obtain ⟨text, written, rendered, wrote⟩ := written_of_generate atRoot isDirectory ran
  have wanted : (generator.scan tree project).records.filter ScriptClass.wantsInjection =
      (generator.headers tree root).flatMap (generator.wantedIn tree root) := by
    rw [records, List.filter_flatMap]
    rfl
  have notes : generator.injectionNotes tree root (generator.scan tree project).records =
      (generator.injectAll root written
        ((generator.headers tree root).flatMap (generator.wantedIn tree root))).2 := by
    have stands : generator.written? tree root (generator.scan tree project).records =
        some written := by
      rw [written?, rendered, Option.bind_some, wrote]
      rfl
    rw [injectionNotes, stands, Option.elim_some, wanted]
  rw [generate_of_written atRoot isDirectory rendered wrote, wanted, ← notes] at ran
  simp only [GenerationResult.mk.injEq, Except.ok.injEq] at ran
  obtain ⟨afterEq, summaryEq⟩ := ran
  have found : summary.scan.records = (generator.scan tree project).records := by
    rw [← summaryEq]
    rfl
  rw [found]
  refine ⟨text, written, text_of_aggregate? rendered, wrote, records, ?_, summaryEq.symm⟩
  rw [← afterEq, notes]

/-- What is to be known about two projects that differ in one header. -/
structure DifferInHeader (generator : Generator) (tree other : FileTree) (root own : Path) :
    Prop where
  listed : own ∈ generator.headers tree root
  changes : ChangesOnly [tree.statedLocation own] tree other
  stays : other.IsFileAt (tree.statedLocation own)
  siblings : ∀ path ∈ generator.headers tree root, path ≠ own → ∀ sibling,
    path.withExtension? generator.config.sourceExtension = some sibling →
      tree.statedLocation sibling ≠ tree.statedLocation own

namespace DifferInHeader

variable (proper : tree.Proper) (leads : tree.LeadsToDirectory root directory)
  (differ : DifferInHeader generator tree other root own)

include proper leads differ

theorem headers_eq : generator.headers other root = generator.headers tree root := by
  refine headers_of_sameDirectories proper differ.changes.proper differ.changes.same leads ?_
  intro names _
  by_cases here : directory ++ names = tree.statedLocation own
  · obtain ⟨_, others, below⟩ := (mem_headers proper leads).mp differ.listed
    have isFile := below.isFile
    rw [← below.statedLocation_eq leads] at isFile
    rw [here]
    exact iff_of_true differ.stays isFile
  · rw [IsFileAt, IsFileAt, differ.changes.outside _ (by simpa using here)]

theorem statedLocation_ne (listed : path ∈ generator.headers tree root) (different : path ≠ own) :
    tree.statedLocation path ≠ tree.statedLocation own := by
  obtain ⟨_, names, below⟩ := (mem_headers proper leads).mp listed
  obtain ⟨_, others, ownBelow⟩ := (mem_headers proper leads).mp differ.listed
  rw [below.statedLocation_eq leads, ownBelow.statedLocation_eq leads]
  intro same
  apply different
  rw [below.path_eq, ownBelow.path_eq, List.append_cancel_left same]

theorem scanFile_eq (listed : path ∈ generator.headers tree root) (different : path ≠ own) :
    generator.scanFile other root path = generator.scanFile tree root path := by
  have untouched := differ.statedLocation_ne proper leads listed different
  obtain ⟨_, names, below⟩ := (mem_headers proper leads).mp listed
  rw [below.statedLocation_eq leads] at untouched
  have sameRead := below.read_eq leads proper differ.changes (by simpa using untouched)
  rw [scanFile, sameRead, scanFile]

theorem wantedIn_eq (listed : path ∈ generator.headers tree root) (different : path ≠ own) :
    generator.wantedIn other root path = generator.wantedIn tree root path := by
  rw [wantedIn, recordsIn, differ.scanFile_eq proper leads listed different, wantedIn, recordsIn]

theorem records_eq :
    ((generator.headers other root).flatMap (generator.recordsIn other root)).filter
        (·.header ≠ (own.relativeTo? root).getD own) =
      ((generator.headers tree root).flatMap (generator.recordsIn tree root)).filter
        (·.header ≠ (own.relativeTo? root).getD own) := by
  rw [differ.headers_eq proper leads]
  refine filter_flatMap_congr fun path listed => ?_
  by_cases isOwn : path = own
  · subst isOwn
    have nothing : ∀ tree : FileTree, (generator.recordsIn tree root path).filter
        (·.header ≠ (path.relativeTo? root).getD path) = [] := by
      intro tree
      apply List.filter_eq_nil_iff.mpr
      intro script found
      simp [header_of_mem_recordsIn found]
    rw [nothing, nothing]
  · rw [recordsIn, differ.scanFile_eq proper leads listed isOwn, recordsIn]

theorem skipped_eq :
    ((generator.headers other root).flatMap fun path =>
        (generator.scanFile other root path).skipped).filter (·.path ≠ own) =
      ((generator.headers tree root).flatMap fun path =>
        (generator.scanFile tree root path).skipped).filter (·.path ≠ own) := by
  rw [differ.headers_eq proper leads]
  refine filter_flatMap_congr fun path listed => ?_
  by_cases isOwn : path = own
  · subst isOwn
    have nothing : ∀ tree : FileTree,
        (generator.scanFile tree root path).skipped.filter (·.path ≠ path) = [] := by
      intro tree
      apply List.filter_eq_nil_iff.mpr
      intro notice noted
      simp [path_of_mem_skipped noted]
    rw [nothing, nothing]
  · rw [differ.scanFile_eq proper leads listed isOwn]

theorem byHandIn_eq {script : ScriptClass}
    (found : script ∈ classesApartFrom root own
      ((generator.headers tree root).flatMap (generator.recordsIn tree root))) :
    generator.byHandIn other root script = generator.byHandIn tree root script := by
  obtain ⟨inRecords, notOwn⟩ := List.mem_filter.mp (List.mem_of_mem_filter found)
  obtain ⟨path, listed, foundHere⟩ := List.mem_flatMap.mp inRecords
  have ofHeader := header_of_mem_recordsIn foundHere
  have different : path ≠ own := by
    rintro rfl
    simp [ofHeader] at notOwn
  obtain ⟨_, names, below⟩ := (mem_headers proper leads).mp listed
  rw [byHandIn, HandRegistration.isByHand?_of_changesOnly differ.changes, byHandIn]
  intro sibling beside
  rw [HandRegistration.siblingPath?, ofHeader, below.join_relative leads] at beside
  simpa using differ.siblings path listed different sibling beside

theorem headersAgree (spaced : generator.Spaced tree root) {content further : Bytes}
    {written rewritten : FileTree}
    (wrote : tree.write (generator.aggregatePath root) content = .ok written)
    (rewrote : other.write (generator.aggregatePath root) further = .ok rewritten) :
    HeadersAgree generator
      (tree.statedLocation (generator.aggregatePath root) :: touchedBy tree [own]) root own
      (generator.headers tree root) (generator.wantedIn tree root) (generator.wantedIn other root)
      written rewritten := by
  have writes := (changesOnly_of_write proper wrote).1
  have rewrites := (changesOnly_of_write differ.changes.proper rewrote).1
  have notAggregate := @statedLocation_ne_aggregatePath generator tree _ _ leads proper
  have stated : ∀ path, written.statedLocation path = tree.statedLocation path :=
    writes.same.statedLocation
  have sameStated : ∀ path, other.statedLocation path = tree.statedLocation path :=
    differ.changes.same.statedLocation
  have ofHeader : ∀ path ∈ generator.headers tree root, ∀ {holder : FileTree},
      ∀ script ∈ generator.wantedIn holder root path, root.join script.header = path :=
    fun path listed _ script wanted => join_header_of_mem_wantedIn proper leads listed wanted
  constructor
  case sameScripts => exact fun path listed => differ.wantedIn_eq proper leads listed
  case untouched =>
    intro path listed different touched
    rw [stated] at touched
    rcases List.mem_cons.mp touched with atAggregate | atOwn
    · exact notAggregate path listed atAggregate
    · obtain ⟨header, here, isOwn | isBackup⟩ := mem_touchedBy.mp atOwn
      · rw [List.mem_singleton.mp here] at isOwn
        exact differ.statedLocation_ne proper leads listed different isOwn
      · rw [List.mem_singleton.mp here] at isBackup
        exact spaced.backups own differ.listed path listed isBackup.symm
  case touchedOwn =>
    intro location touched
    simp only [touchedBy, stated] at touched
    exact List.mem_cons_of_mem _ touched
  case ofHeader => exact fun path listed => ofHeader path listed
  case ofOtherHeader => exact fun path listed => ofHeader path listed
  case readable =>
    intro path listed someScripts
    obtain ⟨content, readsPath⟩ := exists_read_of_wantedIn someScripts
    refine ⟨content, (read_of_changesOnly writes ?_).mpr readsPath⟩
    simpa using notAggregate path listed
  case otherReadable =>
    intro path listed someScripts
    obtain ⟨content, readsPath⟩ := exists_read_of_wantedIn someScripts
    refine ⟨content, (read_of_changesOnly rewrites ?_).mpr readsPath⟩
    rw [sameStated, sameStated]
    simpa using notAggregate path listed
  case apart =>
    constructor
    · simpa only [stated] using pairwise_headers proper leads
    · simpa only [stated] using spaced.backups

theorem spaced_other (spaced : generator.Spaced tree root) : generator.Spaced other root := by
  have sameHeaders := differ.headers_eq proper leads
  have sameStated : ∀ path, other.statedLocation path = tree.statedLocation path :=
    differ.changes.same.statedLocation
  constructor
  · simpa only [sameHeaders, sameStated] using spaced.backups
  · simpa only [sameHeaders, sameStated] using spaced.aggregate

omit leads in
theorem changesOnly_of_writes {content further : Bytes} {written rewritten : FileTree}
    (wrote : tree.write (generator.aggregatePath root) content = .ok written)
    (rewrote : other.write (generator.aggregatePath root) further = .ok rewritten) :
    ChangesOnly (tree.statedLocation (generator.aggregatePath root) :: touchedBy tree [own])
      written rewritten := by
  have writes := (changesOnly_of_write proper wrote).1
  have rewrites := (changesOnly_of_write differ.changes.proper rewrote).1
  rw [differ.changes.same.statedLocation] at rewrites
  refine ChangesOnly.step (differ.changes.mono ?_) writes rewrites ?_
  · intro location touched
    rw [List.mem_singleton.mp touched]
    simp [touchedBy]
  · intro location touched outside
    exact (outside (List.mem_cons.mpr (Or.inl (List.mem_singleton.mp touched)))).elim

end DifferInHeader

/-- The include lines that are not for a header come from the classes of the other headers. -/
theorem filter_includePaths (records : List ScriptClass) :
    (Aggregate.includePaths (records.filter (!·.excluded))).filter
        (· ≠ ((own.relativeTo? root).getD own).slashed) =
      Aggregate.includePaths ((classesApartFrom root own records).filter
        (·.includePath ≠ ((own.relativeTo? root).getD own).slashed)) := by
  have same : (classesApartFrom root own records).filter
      (·.includePath ≠ ((own.relativeTo? root).getD own).slashed) =
        (records.filter (!·.excluded)).filter
          (·.includePath ≠ ((own.relativeTo? root).getD own).slashed) := by
    rw [classesApartFrom, List.filter_filter, List.filter_filter, List.filter_filter]
    refine List.filter_congr fun script _ => ?_
    by_cases isOwn : script.header = (own.relativeTo? root).getD own
    · simp [ScriptClass.includePath, isOwn]
    · simp [isOwn]
  have kept := filter_keepFirst id
    (fun target => decide (target ≠ ((own.relativeTo? root).getD own).slashed))
    ((records.filter (!·.excluded)).map ScriptClass.includePath)
  rw [same, Aggregate.includePaths, Aggregate.includePaths]
  rw [List.filter_map] at kept
  exact kept

theorem path_of_skipped? {note : InjectionNote} {notice : SkipNotice}
    (noted : note.skipped? = some notice) : notice.path = note.path := by
  rw [InjectionNote.skipped?] at noted
  split at noted
  · cases noted
    rfl
  · cases noted

theorem filter_skipped (notes : List InjectionNote) (own : Path) :
    (notes.filterMap InjectionNote.skipped?).filter (·.path ≠ own) =
      (notes.filter (·.path ≠ own)).filterMap InjectionNote.skipped? := by
  rw [List.filter_filterMap, List.filterMap_filter]
  refine List.filterMap_congr fun note _ => ?_
  cases noted : note.skipped? with
  | none => simp
  | some notice => simp [path_of_skipped? noted, Option.filter]

theorem skipped_scan (atRoot : generator.config.scriptsRoot project = root)
    (isDirectory : tree.isDirectory root = true) :
    (generator.scan tree project).skipped = (generator.headers tree root).flatMap fun path =>
      (generator.scanFile tree root path).skipped := by
  rw [scan, atRoot, if_pos isDirectory]
  exact List.flatMap_map ..

theorem isOk_generate (atRoot : generator.config.scriptsRoot project = root)
    (isDirectory : tree.isDirectory root = true) {text : String}
    (rendered : generator.aggregate? tree root (generator.scan tree project).records = some text) :
    (generator.generate tree project).result.isOk =
      (tree.writeText (generator.aggregatePath root) text).isOk := by
  delta generate
  simp only [scriptsRoot_scan atRoot isDirectory, rendered]
  cases tree.writeText (generator.aggregatePath root) text with
  | ok written => rfl
  | error failure => rfl

section

variable (atRoot : generator.config.scriptsRoot project = root)
  (leads : tree.LeadsToDirectory root directory)
  (differ : DifferInHeader generator tree other root own)

include atRoot leads differ

/-- Of two runs that differ in one header both end well or neither does. -/
theorem isOk_generate_eq (plain : '/' ∉ generator.config.sourceExtension.toList) :
    (generator.generate other project).result.isOk =
      (generator.generate tree project).result.isOk := by
  have same := differ.changes.same
  have isDirectory := isDirectory_iff.mpr ⟨directory, leads⟩
  have otherIsDirectory := isDirectory_iff.mpr ⟨directory, leads.of_sameDirectories same⟩
  obtain ⟨text, rendered⟩ := @exists_aggregate? generator root plain tree
    (generator.scan tree project).records
  obtain ⟨otherText, otherRendered⟩ := @exists_aggregate? generator root plain other
    (generator.scan other project).records
  rw [isOk_generate atRoot isDirectory rendered,
    isOk_generate atRoot otherIsDirectory otherRendered]
  cases wrote : tree.writeText (generator.aggregatePath root) text with
  | ok written =>
      have writes : ∃ rewritten,
          other.writeText (generator.aggregatePath root) otherText = .ok rewritten :=
        same.write wrote
      obtain ⟨rewritten, rewrote⟩ := writes
      rw [rewrote]
      rfl
  | error failure =>
      cases rewrote : other.writeText (generator.aggregatePath root) otherText with
      | error cause => rfl
      | ok rewritten =>
          have writes : ∃ written,
              tree.writeText (generator.aggregatePath root) text = .ok written :=
            same.symm.write rewrote
          obtain ⟨written, writes⟩ := writes
          rw [wrote] at writes
          cases writes

theorem sameApartFrom (proper : tree.Proper) (spaced : generator.Spaced tree root)
    {after left : FileTree} {summary otherSummary : GenerationSummary}
    (ran : generator.generate tree project = ⟨after, .ok summary⟩)
    (otherRan : generator.generate other project = ⟨left, .ok otherSummary⟩) :
    SameApartFrom generator tree other root own after left summary otherSummary := by
  have otherLeads := leads.of_sameDirectories differ.changes.same
  obtain ⟨text, written, rendered, wrote, records, injected, summaryEq⟩ :=
    parts_of_generate atRoot leads ran
  obtain ⟨otherText, rewritten, otherRendered, rewrote, otherRecords, otherInjected,
    otherSummaryEq⟩ := parts_of_generate atRoot otherLeads otherRan
  have outcome := runOutcome proper leads spaced wrote
  have otherOutcome := runOutcome differ.changes.proper otherLeads
    (differ.spaced_other proper leads spaced) rewrote
  rw [injected] at outcome
  rw [otherInjected] at otherOutcome
  have agree := differ.headersAgree proper leads spaced wrote rewrote
  have properWritten := (changesOnly_of_write proper wrote).1
  obtain ⟨sameNotes, finished⟩ := agree.injectAll_alike properWritten.proper
    (differ.changesOnly_of_writes proper wrote rewrote)
  rw [differ.headers_eq proper leads] at otherInjected
  rw [injected, otherInjected] at sameNotes finished
  have sameClasses : classesApartFrom root own otherSummary.scan.records =
      classesApartFrom root own summary.scan.records := by
    rw [records, otherRecords, classesApartFrom, differ.records_eq proper leads, classesApartFrom]
  constructor
  case contents =>
    intro path listed different
    refine finished.outside _ ?_
    have untouched := agree.untouched path listed different
    rwa [properWritten.same.statedLocation] at untouched
  case aggregate =>
    rw [LeavesAggregate, ← rendered]
    exact outcome.aggregate
  case otherAggregate =>
    rw [LeavesAggregate, ← otherRendered]
    exact otherOutcome.aggregate
  case includes => rw [filter_includePaths, filter_includePaths, sameClasses]
  case blocks =>
    rw [sameClasses]
    refine List.map_congr_left fun script listed => ?_
    rw [records] at listed
    rw [Aggregate.classBlock, Aggregate.classBlock, differ.byHandIn_eq proper leads listed]
  case skipped =>
    have isDirectory := isDirectory_iff.mpr ⟨directory, leads⟩
    have otherIsDirectory := isDirectory_iff.mpr ⟨directory, otherLeads⟩
    have skipped : summary.scan.skipped = _ := congrArg (·.scan.skipped) summaryEq
    have otherSkipped : otherSummary.scan.skipped = _ := congrArg (·.scan.skipped) otherSummaryEq
    simp only [summarize, skipped_scan atRoot isDirectory] at skipped
    simp only [summarize, skipped_scan atRoot otherIsDirectory] at otherSkipped
    rw [skipped, otherSkipped, List.filter_append, List.filter_append,
      differ.skipped_eq proper leads, filter_skipped, filter_skipped, sameNotes]
  case notes => exact sameNotes
  case withoutConstructor => exact congrArg GenerationSummary.withoutConstructor summaryEq
  case otherWithoutConstructor =>
    exact congrArg GenerationSummary.withoutConstructor otherSummaryEq

end

end Generator

end ScriptRegistrar
