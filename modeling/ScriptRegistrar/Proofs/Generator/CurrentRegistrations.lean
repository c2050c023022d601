import ScriptRegistrar.Proofs.Generator.Runs
import ScriptRegistrar.Proofs.InjectionSite
import ScriptRegistrar.Proofs.StaleRegistrations

/-!
# Registrations after a run

A run brings the classes of a header up to date one after the other, and the classes of other
headers in between.  At the end each constructor registers the messages that were found in its
class and nothing else, whatever earlier runs had left there, or the run says that it could not
replace the header.
-/

namespace ScriptRegistrar

open Text FileTree Injection

namespace Generator

variable {generator : Generator} {tree : FileTree} {root path project own : Path}
  {location directory : Location} {text : String} {script : ScriptClass}

/-- Whether a file of a tree holds a text. -/
def HoldsText (tree : FileTree) (location : Location) (text : String) : Prop :=
  ∃ content, tree.standsAt? location = some (.file content) ∧ Utf8.decode? content = some text

/-- Whether bringing a header up to date does not touch a location. -/
structure Spares (tree : FileTree) (location : Location) (path : Path) : Prop where
  header : tree.statedLocation path ≠ location
  backup : backupOf (tree.statedLocation path) ≠ location

theorem injectInto_own (proper : tree.Proper) (located : tree.locate path = .ok location)
    (holds : HoldsText tree location text) (script : ScriptClass) :
    (∃ after result, generator.injectInto path script tree = (after, result) ∧ after.Proper ∧
      SameDirectories tree after ∧ HoldsText after location (generator.injected script text)) ∨
    ∃ message, generator.injectInto path script tree = (tree, .skipped (.updateFailed message)) := by
  obtain ⟨content, stands, decoded⟩ := holds
  by_cases same : generator.injected script text = text
  · obtain ⟨result, into, _⟩ := injectInto_of_same (read_eq_ok_iff.mpr ⟨location, located, stands⟩)
      fun other otherDecoded => by
        obtain rfl := Option.some.inj (decoded.symm.trans otherDecoded)
        exact same
    refine Or.inl ⟨tree, result, into, proper, SameDirectories.refl tree, content, stands, ?_⟩
    rw [same, decoded]
  · by_cases fits : BackupFits tree path location
    · obtain ⟨replaced, into, changes, here, _⟩ :=
        injectInto_of_fits proper located stands decoded same fits
      exact Or.inl ⟨replaced, _, into, changes.proper, changes.same, _, here,
        Utf8.decode?_encode _⟩
    · exact Or.inr (injectInto_of_misfits proper located stands decoded same fits)

theorem injectInto_elsewhere (proper : tree.Proper) (spares : Spares tree location path)
    (script : ScriptClass) :
    ∃ after result, generator.injectInto path script tree = (after, result) ∧ after.Proper ∧
      SameDirectories tree after ∧ after.standsAt? location = tree.standsAt? location := by
  by_cases leaves : generator.LeavesHeader tree path script
  · obtain ⟨result, into, _⟩ := injectInto_of_leaves proper leaves
    exact ⟨tree, result, into, proper, SameDirectories.refl tree, rfl⟩
  · obtain ⟨other, _, _, replaced, located, _, _, _, into, changes, _⟩ :=
      injectInto_of_not_leaves proper leaves
    refine ⟨replaced, _, into, changes.proper, changes.same, changes.outside _ ?_⟩
    have stated := eq_of_locate located
    subst stated
    simp only [List.mem_cons, List.not_mem_nil, or_false, not_or]
    exact ⟨Ne.symm spares.header, Ne.symm spares.backup⟩

theorem isIdentifier_statement (generator : Generator) :
    isIdentifier generator.config.registration.statement.toList = true := by
  have listed : ("registration.statement", generator.config.registration.statement) ∈
      generator.config.identifiers := by
    simp [Config.identifiers]
  exact Config.isIdentifier_of_mem_identifiers generator.valid _ listed

/-- What stays while the classes of a run are brought up to date: the header of a class holds a text
in which its constructor is found, and in which no class gets in the way of another. -/
structure Upkeep (generator : Generator) (scripts : List ScriptClass) (script : ScriptClass)
    (own : Path) (location : Location) (tree : FileTree) (text : String) : Prop where
  proper : tree.Proper
  located : tree.locate own = .ok location
  holds : HoldsText tree location text
  apart : KeptApart generator.config.registration.statement scripts text
  found : ∃ constructor, Constructor.find? script.name.toList text.toList = some constructor

theorem locate_of_holdsText {after : FileTree} {left : String} (same : SameDirectories tree after)
    (located : tree.locate own = .ok location) (holds : HoldsText after location left) :
    after.locate own = .ok location := by
  obtain ⟨_, stands, _⟩ := holds
  exact same.locate located (by rw [stands]; rfl)

theorem Spares.of_same {after : FileTree} (same : SameDirectories tree after)
    (spares : Spares tree location path) : Spares after location path := by
  constructor
  · rw [same.statedLocation]
    exact spares.header
  · rw [same.statedLocation]
    exact spares.backup

section

variable {scripts pending : List ScriptClass}
  (hasWordNames : ∀ script ∈ scripts, script.HasWordNames)
  (listed : script ∈ scripts) (oneLine : ∀ message ∈ script.messages, '\n' ∉ message.name.toList)
  (sameMessages : ∀ other ∈ scripts, other.name = script.name → other.messages = script.messages)
  (ofHeader : root.join script.header = own)
  (upkeep : Upkeep generator scripts script own location tree text)

include hasWordNames listed oneLine sameMessages ofHeader upkeep

/-- No class takes back what a class registers, and its own turn makes it register its messages, or
it is noted that the header cannot be replaced. -/
theorem injectInto_registers {other : ScriptClass}
    (turn : (root.join other.header = own ∧ other ∈ scripts) ∨
      Spares tree location (root.join other.header)) :
    ∃ after result left,
      generator.injectInto (root.join other.header) other tree = (after, result) ∧
      SameDirectories tree after ∧ Upkeep generator scripts script own location after left ∧
      (Registers generator.config.registration.statement script text →
        Registers generator.config.registration.statement script left) ∧
      (other = script → Registers generator.config.registration.statement script left ∨
        ∃ message, result = .skipped (.updateFailed message)) := by
  obtain ⟨proper, located, holds, apart, found⟩ := upkeep
  have identifier := isIdentifier_statement generator
  have braceless := isBraceless_of_isIdentifier identifier
  rcases turn with ⟨atOwn, member⟩ | spares
  · rw [atOwn]
    rcases injectInto_own proper located holds other with
      ⟨after, result, into, properAfter, same, holdsAfter⟩ | ⟨message, into⟩
    · refine ⟨after, result, _, into, same, ⟨properAfter, locate_of_holdsText same located holdsAfter,
        holdsAfter, apart.inject braceless hasWordNames member,
        apart.exists_find?_inject braceless hasWordNames member listed found⟩, ?_, ?_⟩
      · intro registers
        exact registers.inject identifier hasWordNames apart listed oneLine member
          (sameMessages other member)
      · rintro rfl
        obtain ⟨constructor, before⟩ := found
        exact Or.inl (registers_inject identifier hasWordNames apart listed oneLine before)
    · exact ⟨tree, _, text, into, SameDirectories.refl tree, ⟨proper, located, holds, apart, found⟩,
        id, fun _ => Or.inr ⟨message, rfl⟩⟩
  · obtain ⟨after, result, into, properAfter, same, here⟩ :=
      injectInto_elsewhere proper spares other
    have holdsAfter : HoldsText after location text := by
      obtain ⟨content, stands, decoded⟩ := holds
      exact ⟨content, here.trans stands, decoded⟩
    refine ⟨after, result, text, into, same, ⟨properAfter,
      locate_of_holdsText same located holdsAfter, holdsAfter, apart, found⟩, id, ?_⟩
    rintro rfl
    exact (spares.header (by rw [ofHeader, ← eq_of_locate located])).elim

/-- In the end a class is registered in its header as it should be, or it is noted that the header
could not be replaced.  Before that either it is, or its turn has yet to come. -/
theorem injectAll_registers
    (turns : ∀ other ∈ pending, (root.join other.header = own ∧ other ∈ scripts) ∨
      Spares tree location (root.join other.header))
    (due : Registers generator.config.registration.statement script text ∨ script ∈ pending) :
    (∃ left, (generator.injectAll root tree pending).1.readText own = .ok left ∧
      Registers generator.config.registration.statement script left) ∨
    ∃ message, ⟨own, script.name, .skipped (.updateFailed message)⟩ ∈
      (generator.injectAll root tree pending).2 := by
  induction pending generalizing tree text with
  | nil =>
      rcases due with registers | waits
      · obtain ⟨content, stands, decoded⟩ := upkeep.holds
        have reads := read_eq_ok_iff.mpr ⟨location, upkeep.located, stands⟩
        exact Or.inl ⟨text, readText_eq_ok_iff.mpr ⟨content, reads, decoded⟩, registers⟩
      · cases waits
  | cons other rest induction =>
      obtain ⟨turn, later⟩ := List.forall_mem_cons.mp turns
      obtain ⟨after, result, left, into, same, upkeepAfter, keeps, ownTurn⟩ :=
        injectInto_registers hasWordNames listed oneLine sameMessages ofHeader upkeep turn
      have laterTurns := fun next inRest =>
        (later next inRest).imp_right fun spares => spares.of_same same
      have dueAfter :
          (Registers generator.config.registration.statement script left ∨ script ∈ rest) ∨
            other = script ∧ ∃ message, result = .skipped (.updateFailed message) := by
        rcases due with registers | waits
        · exact Or.inl (Or.inl (keeps registers))
        · rcases List.mem_cons.mp waits with rfl | waits
          · exact (ownTurn rfl).imp Or.inl fun noted => ⟨rfl, noted⟩
          · exact Or.inl (Or.inr waits)
      simp only [injectAll]
      rw [into]
      rcases dueAfter with dueAfter | ⟨rfl, message, rfl⟩
      · refine (induction upkeepAfter laterTurns dueAfter).imp_right ?_
        rintro ⟨message, noted⟩
        exact ⟨message, List.mem_cons_of_mem _ noted⟩
      · exact Or.inr ⟨message, ofHeader ▸ List.mem_cons_self⟩

end

/-- The classes of a run that are brought up to date in the header of a class. -/
def companions (records : List ScriptClass) (script : ScriptClass) : List ScriptClass :=
  (records.filter ScriptClass.wantsInjection).filter (·.header = script.header)

theorem records_of_generate {after : FileTree} {summary : GenerationSummary}
    (ran : generator.generate tree project = ⟨after, .ok summary⟩) :
    summary.scan.records = (generator.scan tree project).records := by
  delta generate at ran
  dsimp only at ran
  split at ran
  · cases ran
    rfl
  · split at ran
    · cases ran
    · split at ran
      · cases ran
      · cases ran
        rfl

theorem hasWordNames_of_mem_recordsIn (found : script ∈ generator.recordsIn tree root path) :
    script.HasWordNames := by
  cases reads : tree.read path with
  | error failure =>
      rw [recordsIn_of_unread (by simp [reads])] at found
      cases found
  | ok content =>
      rw [recordsIn_of_read reads] at found
      exact Scanner.hasWordNames_of_mem_records found

section

variable (proper : tree.Proper) (leads : tree.LeadsToDirectory root directory)

include proper leads

theorem header_of_mem_records
    (found : script ∈ (generator.headers tree root).flatMap (generator.recordsIn tree root)) :
    root.join script.header ∈ generator.headers tree root ∧
      script ∈ generator.recordsIn tree root (root.join script.header) ∧
        ∃ names, IsPathBelow tree root directory (root.join script.header) names := by
  obtain ⟨path, listed, inHeader⟩ := List.mem_flatMap.mp found
  obtain ⟨_, names, below⟩ := (mem_headers proper leads).mp listed
  have back := below.join_relative leads
  rw [← header_of_mem_recordsIn inHeader] at back
  rw [back]
  exact ⟨listed, inHeader, names, below⟩

theorem spares_of_header_ne {other : ScriptClass}
    (found : script ∈ (generator.headers tree root).flatMap (generator.recordsIn tree root))
    (otherFound : other ∈ (generator.headers tree root).flatMap (generator.recordsIn tree root))
    (different : other.header ≠ script.header)
    (spared : ∀ path ∈ generator.headers tree root,
      backupOf (tree.statedLocation path) ≠ tree.statedLocation (root.join script.header)) :
    Spares tree (tree.statedLocation (root.join script.header)) (root.join other.header) := by
  obtain ⟨_, inHeader, names, below⟩ := header_of_mem_records proper leads found
  obtain ⟨otherListed, otherInHeader, otherNames, otherBelow⟩ :=
    header_of_mem_records proper leads otherFound
  refine ⟨?_, spared _ otherListed⟩
  rw [below.statedLocation_eq leads, otherBelow.statedLocation_eq leads]
  intro same
  have samePath : root.join other.header = root.join script.header := by
    rw [otherBelow.path_eq, below.path_eq, List.append_cancel_left same]
  have header := header_of_mem_recordsIn inHeader
  rw [← samePath, ← header_of_mem_recordsIn otherInHeader] at header
  exact different header.symm

theorem turn_of_mem_records {records : List ScriptClass} {other : ScriptClass}
    (areRecords : records =
      (generator.headers tree root).flatMap (generator.recordsIn tree root))
    (found : script ∈ records) (member : other ∈ records.filter ScriptClass.wantsInjection)
    (spared : ∀ path ∈ generator.headers tree root,
      backupOf (tree.statedLocation path) ≠ tree.statedLocation (root.join script.header)) :
    (root.join other.header = root.join script.header ∧ other ∈ companions records script) ∨
      Spares tree (tree.statedLocation (root.join script.header)) (root.join other.header) := by
  by_cases sameHeader : other.header = script.header
  · exact Or.inl ⟨by rw [sameHeader], List.mem_filter.mpr ⟨member, by simpa using sameHeader⟩⟩
  · have otherFound := List.mem_of_mem_filter member
    rw [areRecords] at found otherFound
    exact Or.inr (spares_of_header_ne proper leads found otherFound sameHeader spared)

theorem holdsText_of_write {content : Bytes} {written : FileTree}
    (wrote : tree.write (generator.aggregatePath root) content = .ok written)
    (listed : path ∈ generator.headers tree root) (reads : tree.readText path = .ok text) :
    written.locate path = .ok (tree.statedLocation path) ∧
      HoldsText written (tree.statedLocation path) text := by
  obtain ⟨content, readsContent, decoded⟩ := readText_eq_ok_iff.mp reads
  obtain ⟨location, located, stands⟩ := read_eq_ok_iff.mp readsContent
  obtain ⟨writes, _⟩ := changesOnly_of_write proper wrote
  have notAggregate := statedLocation_ne_aggregatePath leads proper _ listed
  obtain rfl := eq_of_locate located
  have standsWritten := writes.outside _ (by simpa using notAggregate)
  rw [stands] at standsWritten
  have holds : HoldsText written (tree.statedLocation path) text :=
    ⟨content, standsWritten, decoded⟩
  exact ⟨locate_of_holdsText writes.same located holds, holds⟩

end

/-- After a run that ended well, the constructor of a class with messages registers these and
nothing else, whatever it held before; or the run says that the header could not be replaced. -/
theorem generate_registers {after : FileTree} {summary : GenerationSummary}
    (proper : tree.Proper) (ran : generator.generate tree project = ⟨after, .ok summary⟩)
    (found : script ∈ summary.scan.records) (wants : script.wantsInjection = true)
    (reads : tree.readText ((generator.config.scriptsRoot project).join script.header) = .ok text)
    (constructor : ∃ constructor,
      Constructor.find? script.name.toList text.toList = some constructor)
    (oneLine : ∀ message ∈ script.messages, '\n' ∉ message.name.toList)
    (sameMessages : ∀ other ∈ companions summary.scan.records script,
      other.name = script.name → other.messages = script.messages)
    (apart : KeptApart generator.config.registration.statement
      (companions summary.scan.records script) text)
    (spared : ∀ path ∈ generator.headers tree (generator.config.scriptsRoot project),
      backupOf (tree.statedLocation path) ≠
        tree.statedLocation ((generator.config.scriptsRoot project).join script.header)) :
    (∃ left,
      after.readText ((generator.config.scriptsRoot project).join script.header) = .ok left ∧
        Registers generator.config.registration.statement script left) ∨
    ∃ message, ⟨(generator.config.scriptsRoot project).join script.header, some script.name,
      .updateFailed message⟩ ∈ summary.scan.skipped := by
  by_cases isDirectory : tree.isDirectory (generator.config.scriptsRoot project) = true
  · obtain ⟨directory, leads⟩ := isDirectory_iff.mp isDirectory
    have records := records_of_generate ran
    rw [records_scan rfl isDirectory] at records
    obtain ⟨aggregate, written, rendered, wrote⟩ := written_of_generate rfl isDirectory ran
    rw [generate_of_written rfl isDirectory rendered wrote, records_scan rfl isDirectory] at ran
    simp only [GenerationResult.mk.injEq, Except.ok.injEq] at ran
    obtain ⟨rfl, summaryEq⟩ := ran
    rw [records] at found
    obtain ⟨listed, _, _, _⟩ := header_of_mem_records proper leads found
    have writes := (changesOnly_of_write proper wrote).1
    have wordNames : ∀ other ∈ companions summary.scan.records script, other.HasWordNames := by
      intro other member
      have otherFound := List.mem_of_mem_filter (List.mem_of_mem_filter member)
      rw [records] at otherFound
      exact hasWordNames_of_mem_recordsIn (header_of_mem_records proper leads otherFound).2.1
    rw [← records] at found
    have waits := List.mem_filter.mpr ⟨found, wants⟩
    have isCompanion : script ∈ companions summary.scan.records script :=
      List.mem_filter.mpr ⟨waits, by simp⟩
    obtain ⟨located, holds⟩ := holdsText_of_write proper leads wrote listed reads
    have turns := fun other (member : other ∈ summary.scan.records.filter _) =>
      (turn_of_mem_records proper leads records found member spared).imp_right
        (·.of_same writes.same)
    have registered := injectAll_registers wordNames isCompanion oneLine sameMessages rfl
      ⟨writes.proper, located, holds, apart, constructor⟩ turns (Or.inr waits)
    rw [records] at registered
    refine registered.imp_right ?_
    rintro ⟨message, noted⟩
    have skipped := congrArg (·.scan.skipped) summaryEq
    simp only [summarize] at skipped
    rw [← skipped]
    exact ⟨message, List.mem_append_right _ (List.mem_filterMap.mpr ⟨_, noted, rfl⟩)⟩
  · rw [generate_of_not_directory (by simpa using isDirectory)] at ran
    cases ran
    cases found

theorem generate_registers_stale :
    let generator : Generator :=
      ⟨{ baseClass := "B", markers := { message := "M" }, registration := { statement := "R" } },
        .engineDefault, rfl⟩
    let tree : FileTree := ⟨[(["p"], .directory), (["p", "Scripts"], .directory),
      (["p", "Scripts", "A.h"], .file (Utf8.encode
        "class A:public B\x7bA()\x7b\nR(\"X\");\n\x7dM()void F();\x7d;"))], []⟩
    let header := (generator.config.scriptsRoot ⟨"p"⟩).join ⟨"A.h"⟩
    let script : ScriptClass :=
      { name := "A", header := ⟨"A.h"⟩, messages := [⟨"F", "F", [], .marker⟩] }
    ∃ after summary, generator.generate tree ⟨"p"⟩ = ⟨after, .ok summary⟩ ∧
      script ∈ summary.scan.records ∧
      ((∃ left, after.readText header = .ok left ∧ Registers "R" script left) ∨
        ∃ message, ⟨header, some "A", .updateFailed message⟩ ∈ summary.scan.skipped) := by
  intro generator tree header script
  have proper : tree.Proper := by decide +kernel
  obtain ⟨summary, ran⟩ := exists_generate_eq
    (show (generator.generate tree ⟨"p"⟩).result.isOk = true by decide +kernel)
  have records : summary.scan.records = [script] := by
    rw [records_of_generate ran]
    decide +kernel
  have found : script ∈ summary.scan.records := by
    rw [records]
    exact List.mem_cons_self
  have alone : companions summary.scan.records script = [script] := by
    rw [records]
    decide +kernel
  let text := "class A:public B\x7bA()\x7b\nR(\"X\");\n\x7dM()void F();\x7d;"
  have braceless : (Constructor.find? "A".toList text.toList).all
      (fun constructor => constructor.body.all (!isBrace ·)) = true := by
    decide +kernel
  refine ⟨_, summary, ran, found, @generate_registers generator tree ⟨"p"⟩ text script _ summary
    proper ran found (by decide) (by decide +kernel) ?_ (by decide) ?_ ?_ (by decide +kernel)⟩
  · exact Option.isSome_iff_exists.mp (by decide +kernel)
  · rw [alone]
    exact List.forall_mem_singleton.mpr fun _ => rfl
  · rw [alone]
    refine ⟨by decide, List.forall_mem_singleton.mpr (List.forall_mem_singleton.mpr ?_),
      List.forall_mem_singleton.mpr fun constructor found => ?_⟩
    · exact isBraceless_of_isIdentifier (by decide)
    · rw [show script.name = "A" from rfl] at found
      rw [found, Option.all_some, List.all_eq_true] at braceless
      exact .of_braceless (by simp) fun character member => by simpa using braceless character member

/-- What is left of a class whose last message is gone stays. -/
theorem generate_keeps_stale :
    ¬ ∀ (generator : Generator) (tree after : FileTree) (project : Path)
      (summary : GenerationSummary) (script : ScriptClass) (text : String)
      (constructor : Constructor), tree.Proper →
      generator.generate tree project = ⟨after, .ok summary⟩ →
      script ∈ summary.scan.records → script.excluded = false →
      tree.readText ((generator.config.scriptsRoot project).join script.header) = .ok text →
      (∀ other ∈ summary.scan.records, other.name = script.name → other = script) →
      Constructor.find? script.name.toList text.toList = some constructor →
      (∃ place ∈ generator.scanner.places text,
        place.head.name = script.name ∧ place.body.Encloses constructor) →
      (∀ character ∈ constructor.body, isBrace character = false) →
      (∀ message ∈ script.messages, IsBraceless message.name ∧ '\n' ∉ message.name.toList) →
      ∃ left,
        after.readText ((generator.config.scriptsRoot project).join script.header) = .ok left ∧
          Registers generator.config.registration.statement script left := by
  intro claimed
  let generator : Generator :=
    ⟨{ baseClass := "B", registration := { statement := "R" } }, .engineDefault, rfl⟩
  let text := "class A:public B\x7bA()\x7b\nR(\"X\");\n\x7d\x7d;"
  let tree : FileTree := ⟨[(["p"], .directory), (["p", "Scripts"], .directory),
    (["p", "Scripts", "A.h"], .file (Utf8.encode text))], []⟩
  let script : ScriptClass := { name := "A", header := ⟨"A.h"⟩ }
  obtain ⟨summary, ran⟩ := exists_generate_eq
    (show (generator.generate tree ⟨"p"⟩).result.isOk = true by decide +kernel)
  have records : summary.scan.records = [script] := by
    rw [records_of_generate ran]
    decide +kernel
  have stale : (Constructor.find? "A".toList text.toList).any (fun constructor =>
      decide (∃ place ∈ generator.scanner.places text,
        place.head.name = "A" ∧ place.body.Encloses constructor) &&
      (constructor.body.all (!isBrace ·) &&
        !decide (registrationLines "R" constructor.body = []))) = true := by
    decide +kernel
  obtain ⟨constructor, found, holds⟩ := Option.any_eq_true _ _ |>.mp stale
  simp only [Bool.and_eq_true, decide_eq_true_eq, List.all_eq_true, Bool.not_eq_true',
    decide_eq_false_iff_not] at holds
  obtain ⟨inBody, braceless, stays⟩ := holds
  obtain ⟨left, reads, other, foundLeft, lines⟩ := claimed generator tree _ ⟨"p"⟩ summary script text
    constructor (by decide +kernel) ran (by rw [records]; exact List.mem_cons_self) rfl
    (by decide +kernel) (by rw [records]; simp) found inBody braceless (by simp [script])
  have unchanged : (generator.generate tree ⟨"p"⟩).tree.readText
      ((generator.config.scriptsRoot ⟨"p"⟩).join script.header) = .ok text := by
    decide +kernel
  rw [unchanged, Except.ok.injEq] at reads
  subst reads
  obtain rfl := Option.some.inj (found.symm.trans foundLeft)
  exact stays lines

end Generator

end ScriptRegistrar
