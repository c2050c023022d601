import ScriptRegistrar.Generator.Run
import ScriptRegistrar.Proofs.FileTree.Replacing
import ScriptRegistrar.Proofs.Text.Encoding

/-!
# Updating headers

Bringing the classes of one header up to date changes that header alone, and it changes nothing if
no injection changes its text.  Headers that do not stand in each other's way are updated
independently of each other.
-/

namespace ScriptRegistrar

open Text FileTree

/-- Whether a file can be moved out of the way before it is replaced. -/
def FileTree.canBackUp (tree : FileTree) (path : Path) : Bool :=
  (tree.rename path (Replacement.backupPath path)).isOk

/-- Whether bytes are read as the same text. -/
def Text.Utf8.SameText (left right : List UInt8) : Prop :=
  decode? left = decode? right ∧ decodeLossy left = decodeLossy right

theorem FileTree.canBackUp_iff {tree : FileTree} {path : Path} (proper : tree.Proper)
    {location : Location} {content : Bytes} (located : tree.locate path = .ok location)
    (stands : tree.standsAt? location = some (.file content)) :
    tree.canBackUp path = true ↔ BackupFits tree path location := by
  obtain ⟨last, named, shape, short, _⟩ := namedParts_of_locate proper located (by simp [stands])
  rw [shape] at stands ⊢
  constructor
  · intro possible
    by_contra misfits
    obtain ⟨failure, fails⟩ := rename_backup_fails named short stands misfits
    rw [canBackUp, fails] at possible
    cases possible
  · intro fits
    rw [canBackUp, rename_backup named short stands fits]
    rfl

namespace Generator

variable {generator : Generator} {tree : FileTree} {root path : Path}

/-- The text with the constructor of a class brought up to date. -/
def injected (generator : Generator) (script : ScriptClass) (text : String) : String :=
  Injection.inject script.name generator.config.registration.statement script.messages text

/-- The text with the constructors of some classes brought up to date. -/
def injectedAll (generator : Generator) (scripts : List ScriptClass) (text : String) : String :=
  scripts.foldl (fun text script => generator.injected script text) text

/-- Where the text cannot be read or does not change, nothing happens. -/
theorem injectInto_of_same {script : ScriptClass} {content : Bytes}
    (reads : tree.read path = .ok content)
    (same : ∀ text, Utf8.decode? content = some text → generator.injected script text = text) :
    ∃ result, generator.injectInto path script tree = (tree, result) ∧ result ≠ .updated := by
  cases decoded : Utf8.decode? content with
  | none =>
      have fails := readText_of_read reads
      rw [decoded] at fails
      exact ⟨.skipped (.unreadable FileFailure.notText.message), by simp only [injectInto, fails],
        by simp⟩
  | some text =>
      have readsText := readText_of_read reads
      rw [decoded] at readsText
      have unchanged := same text decoded
      rw [injected, Injection.inject] at unchanged
      cases result : Injection.inject? script.name generator.config.registration.statement
          script.messages text with
      | none => exact ⟨.noConstructor, by simp only [injectInto, readsText, result], by simp⟩
      | some changed =>
          rw [result, Option.getD_some] at unchanged
          exact ⟨.upToDate, by simp only [injectInto, readsText, result, if_pos unchanged], by simp⟩

section

variable (proper : tree.Proper) {location : Location} {content : Bytes} {text : String}
  (located : tree.locate path = .ok location)
  (stands : tree.standsAt? location = some (.file content))
  (decoded : Utf8.decode? content = some text) {script : ScriptClass}
  (changes : generator.injected script text ≠ text)

include proper located stands decoded changes

/-- A header that has to change and can be backed up is replaced. -/
theorem injectInto_of_fits (fits : BackupFits tree path location) :
    ∃ replaced, generator.injectInto path script tree = (replaced, .updated) ∧
      ChangesOnly [location, backupOf location] tree replaced ∧
        replaced.standsAt? location =
            some (.file (Utf8.encode (generator.injected script text))) ∧
          replaced.standsAt? (backupOf location) = none := by
  have readsText := readText_of_read (read_eq_ok_iff.mpr ⟨location, located, stands⟩)
  rw [decoded] at readsText
  rw [injected, Injection.inject] at changes
  cases result : Injection.inject? script.name generator.config.registration.statement
      script.messages text with
  | none => simp [result] at changes
  | some changed =>
      rw [result, Option.getD_some] at changes
      obtain ⟨replaced, outcome, others, here, spare⟩ :=
        replace_of_fits proper located stands fits changed
      refine ⟨replaced, ?_, others, ?_, spare⟩
      · simp only [injectInto, readsText, result, if_neg changes, outcome]
      · rw [here, injected, Injection.inject, result, Option.getD_some]

theorem injectInto_of_misfits (misfits : ¬ BackupFits tree path location) :
    ∃ message, generator.injectInto path script tree =
      (tree, .skipped (.updateFailed message)) := by
  have readsText := readText_of_read (read_eq_ok_iff.mpr ⟨location, located, stands⟩)
  rw [decoded] at readsText
  rw [injected, Injection.inject] at changes
  cases result : Injection.inject? script.name generator.config.registration.statement
      script.messages text with
  | none => simp [result] at changes
  | some changed =>
      rw [result, Option.getD_some] at changes
      obtain ⟨failure, outcome⟩ := replace_of_misfits proper located stands misfits changed
      exact ⟨failure.message,
        by simp only [injectInto, readsText, result, if_neg changes, outcome]⟩

end

/-- Whether no class of a header that can be replaced changes its text. -/
def UpToDate (generator : Generator) (tree : FileTree) (path : Path)
    (scripts : List ScriptClass) (content : Bytes) : Prop :=
  tree.canBackUp path = true → ∀ text, Utf8.decode? content = some text →
    ∀ script ∈ scripts, generator.injected script text = text

instance (generator : Generator) (tree : FileTree) (path : Path) (scripts : List ScriptClass)
    (content : Bytes) : Decidable (generator.UpToDate tree path scripts content) :=
  decidable_of_iff (tree.canBackUp path = true → (Utf8.decode? content).all fun text =>
      scripts.all fun script => generator.injected script text = text) <| by
    simp only [UpToDate, Option.all_eq_true, List.all_eq_true, decide_eq_true_eq]

theorem upToDate_iff_forall {scripts : List ScriptClass} {content : Bytes} :
    generator.UpToDate tree path scripts content ↔
      ∀ script ∈ scripts, generator.UpToDate tree path [script] content := by
  constructor
  · intro all script listed possible text decoded
    exact List.forall_mem_singleton.mpr (all possible text decoded script listed)
  · intro each possible text decoded script listed
    exact each script listed possible text decoded script (List.mem_singleton_self _)

/-- Whether a class has nothing to change in the header that a path leads to. -/
def LeavesHeader (generator : Generator) (tree : FileTree) (path : Path) (script : ScriptClass) :
    Prop :=
  ∀ content, tree.read path = .ok content → generator.UpToDate tree path [script] content

/-- A header that cannot be replaced or need not change stays as it is. -/
theorem injectInto_of_leaves (proper : tree.Proper) {script : ScriptClass}
    (leaves : generator.LeavesHeader tree path script) :
    ∃ result, generator.injectInto path script tree = (tree, result) ∧ result ≠ .updated := by
  cases reads : tree.read path with
  | error failure =>
      have fails : tree.readText path = .error failure := by
        simp [readText, reads, bind, Except.bind]
      exact ⟨.skipped (.unreadable failure.message), by simp only [injectInto, fails], by simp⟩
  | ok content =>
      have upToDate := leaves content reads
      obtain ⟨location, located, stands⟩ := read_eq_ok_iff.mp reads
      by_cases same : ∀ text, Utf8.decode? content = some text →
          generator.injected script text = text
      · exact injectInto_of_same reads same
      · simp only [Classical.not_imp, not_forall] at same
        obtain ⟨text, decoded, changes⟩ := same
        have misfits : ¬ BackupFits tree path location := by
          intro fits
          have possible := (canBackUp_iff proper located stands).mpr fits
          exact changes (upToDate possible text decoded script (List.mem_singleton_self _))
        obtain ⟨message, into⟩ :=
          injectInto_of_misfits proper located stands decoded changes misfits
        exact ⟨_, into, by simp⟩

/-- Any other header is replaced. -/
theorem injectInto_of_not_leaves (proper : tree.Proper) {script : ScriptClass}
    (outdated : ¬ generator.LeavesHeader tree path script) :
    ∃ location content text replaced, tree.locate path = .ok location ∧
      tree.standsAt? location = some (.file content) ∧ Utf8.decode? content = some text ∧
        BackupFits tree path location ∧
          generator.injectInto path script tree = (replaced, .updated) ∧
            ChangesOnly [location, backupOf location] tree replaced ∧
              replaced.standsAt? location =
                  some (.file (Utf8.encode (generator.injected script text))) ∧
                replaced.standsAt? (backupOf location) = none := by
  simp only [LeavesHeader, UpToDate, Classical.not_imp, not_forall, List.mem_singleton,
    exists_eq_left] at outdated
  obtain ⟨content, reads, possible, text, decoded, changes⟩ := outdated
  obtain ⟨location, located, stands⟩ := read_eq_ok_iff.mp reads
  have fits := (canBackUp_iff proper located stands).mp possible
  obtain ⟨replaced, into, changesOnly, here, spare⟩ :=
    injectInto_of_fits proper located stands decoded changes fits
  exact ⟨location, content, text, replaced, located, stands, decoded, fits, into, changesOnly, here,
    spare⟩

theorem injectAll_append (first second : List ScriptClass) :
    generator.injectAll root tree (first ++ second) =
      ((generator.injectAll root (generator.injectAll root tree first).1 second).1,
        (generator.injectAll root tree first).2 ++
          (generator.injectAll root (generator.injectAll root tree first).1 second).2) := by
  induction first generalizing tree with
  | nil => rfl
  | cons script rest induction => simp only [List.cons_append, injectAll, induction]

theorem proper_injectAll (proper : tree.Proper) (scripts : List ScriptClass) :
    (generator.injectAll root tree scripts).1.Proper := by
  induction scripts generalizing tree with
  | nil => exact proper
  | cons script rest induction =>
      simp only [injectAll]
      by_cases leaves : generator.LeavesHeader tree (root.join script.header) script
      · obtain ⟨result, into, _⟩ := injectInto_of_leaves proper leaves
        rw [into]
        exact induction proper
      · obtain ⟨_, _, _, replaced, _, _, _, _, into, changes, _⟩ :=
          injectInto_of_not_leaves proper leaves
        rw [into]
        exact induction changes.proper

theorem injectAll_idle_iff (proper : tree.Proper) {scripts : List ScriptClass} :
    (generator.injectAll root tree scripts).2.filterMap InjectionNote.updated? = [] ↔
      ∀ script ∈ scripts, generator.LeavesHeader tree (root.join script.header) script := by
  induction scripts with
  | nil => simp [injectAll]
  | cons script rest induction =>
      rw [List.forall_mem_cons]
      simp only [injectAll]
      by_cases leaves : generator.LeavesHeader tree (root.join script.header) script
      · obtain ⟨result, into, notUpdated⟩ := injectInto_of_leaves proper leaves
        rw [into, List.filterMap_cons, InjectionNote.updated?, if_neg notUpdated]
        exact induction.trans (and_iff_right leaves).symm
      · obtain ⟨_, _, _, replaced, _, _, _, _, into, _⟩ := injectInto_of_not_leaves proper leaves
        rw [into]
        simp [InjectionNote.updated?, leaves]

theorem injectAll_of_leaves (proper : tree.Proper) {scripts : List ScriptClass}
    (leave : ∀ script ∈ scripts, generator.LeavesHeader tree (root.join script.header) script) :
    (generator.injectAll root tree scripts).1 = tree := by
  induction scripts with
  | nil => rfl
  | cons script rest induction =>
      obtain ⟨here, others⟩ := List.forall_mem_cons.mp leave
      obtain ⟨result, into, _⟩ := injectInto_of_leaves proper here
      simp only [injectAll, into]
      exact induction others

/-- What bringing some classes up to date leaves in their header. -/
def updatedContent (generator : Generator) (tree : FileTree) (path : Path)
    (scripts : List ScriptClass) (content : Bytes) : Bytes :=
  match Utf8.decode? content with
  | some text =>
    if tree.canBackUp path then Utf8.encode (generator.injectedAll scripts text) else content
  | none => content

/-- What bringing the classes of one header up to date does. -/
structure HeaderOutcome (generator : Generator) (tree : FileTree) (path : Path)
    (location : Location) (content : Bytes) (scripts : List ScriptClass) (after : FileTree) :
    Prop where
  changes : ChangesOnly [location, backupOf location] tree after
  header : ∃ left, after.standsAt? location = some (.file left) ∧
    Utf8.SameText left (generator.updatedContent tree path scripts content)
  backup : after.standsAt? (backupOf location) = none ∨
    after.standsAt? (backupOf location) = tree.standsAt? (backupOf location)

theorem updatedContent_cons {content : Bytes} {scripts : List ScriptClass} {script : ScriptClass}
    (upToDate : generator.UpToDate tree path [script] content) :
    generator.updatedContent tree path (script :: scripts) content =
      generator.updatedContent tree path scripts content := by
  unfold updatedContent
  cases decoded : Utf8.decode? content with
  | none => rfl
  | some text =>
      by_cases possible : tree.canBackUp path = true
      · have same := upToDate possible text decoded script (List.mem_singleton_self _)
        simp only [if_pos possible, injectedAll, List.foldl_cons, same]
      · simp only [if_neg possible]

theorem sameText_updatedContent_nil (content : Bytes) :
    Utf8.SameText content (generator.updatedContent tree path [] content) := by
  unfold updatedContent
  cases decoded : Utf8.decode? content with
  | none => exact ⟨rfl, rfl⟩
  | some text =>
      by_cases possible : tree.canBackUp path = true
      · simp only [if_pos possible]
        have lossy := Utf8.decodeLossy_eq_of_decode? (Utf8.decode?_encode text)
        exact ⟨by rw [decoded]; exact (Utf8.decode?_encode text).symm,
          (Utf8.decodeLossy_eq_of_decode? decoded).trans lossy.symm⟩
      · simp only [if_neg possible]
        exact ⟨rfl, rfl⟩

theorem headerOutcome (proper : tree.Proper) {location : Location} {content : Bytes}
    (located : tree.locate path = .ok location)
    (stands : tree.standsAt? location = some (.file content)) {scripts : List ScriptClass}
    (ofHeader : ∀ script ∈ scripts, root.join script.header = path) :
    HeaderOutcome generator tree path location content scripts
      (generator.injectAll root tree scripts).1 := by
  induction scripts generalizing tree content with
  | nil =>
      exact ⟨(ChangesOnly.refl proper).mono (by simp),
        ⟨content, stands, sameText_updatedContent_nil content⟩, Or.inr rfl⟩
  | cons script rest induction =>
      obtain ⟨here, others⟩ := List.forall_mem_cons.mp ofHeader
      have reads := read_eq_ok_iff.mpr ⟨location, located, stands⟩
      simp only [injectAll, here]
      by_cases leaves : generator.LeavesHeader tree path script
      · obtain ⟨result, into, _⟩ := injectInto_of_leaves proper leaves
        rw [into]
        obtain ⟨changes, header, backup⟩ := induction proper located stands others
        refine ⟨changes, ?_, backup⟩
        rw [updatedContent_cons (leaves content reads)]
        exact header
      · obtain ⟨place, found, text, replaced, locatedPlace, standsThere, decoded, fits, into,
          changesOnly, standsAfter, spare⟩ := injectInto_of_not_leaves proper leaves
        rw [located] at locatedPlace
        cases locatedPlace
        rw [stands] at standsThere
        cases standsThere
        rw [into]
        have possible := (canBackUp_iff proper located stands).mpr fits
        have stillLocated := changesOnly.same.locate located (by rw [standsAfter]; rfl)
        have further := induction changesOnly.proper stillLocated standsAfter others
        have stillPossible : replaced.canBackUp path = true :=
          (canBackUp_iff changesOnly.proper stillLocated standsAfter).mpr
            (changesOnly.same.backupFits fits)
        have content_eq : generator.updatedContent replaced path rest
            (Utf8.encode (generator.injected script text)) =
              generator.updatedContent tree path (script :: rest) content := by
          simp only [updatedContent, Utf8.decode?_encode, decoded, if_pos possible,
            if_pos stillPossible, injectedAll, List.foldl_cons]
        refine ⟨changesOnly.trans further.changes, content_eq ▸ further.header, Or.inl ?_⟩
        rcases further.backup with none | unchanged
        · exact none
        · rw [unchanged, spare]

theorem read_of_changesOnly {touched : List Location} {other : FileTree}
    (changes : ChangesOnly touched tree other) (untouched : tree.statedLocation path ∉ touched)
    {content : Bytes} : other.read path = .ok content ↔ tree.read path = .ok content := by
  rw [read_eq_ok_iff, read_eq_ok_iff]
  constructor
  · rintro ⟨location, located, stands⟩
    have stated := (eq_of_locate located).trans (changes.same.statedLocation path)
    have before := changes.outside location (stated ▸ untouched)
    rw [stands] at before
    exact ⟨location, changes.same.symm.locate located (by rw [← before]; rfl), before.symm⟩
  · rintro ⟨location, located, stands⟩
    have after := changes.outside location (eq_of_locate located ▸ untouched)
    rw [stands] at after
    exact ⟨location, changes.same.locate located (by rw [after]; rfl), after⟩

theorem canBackUp_of_sameDirectories {other : FileTree} (proper : tree.Proper)
    (otherProper : other.Proper) (same : SameDirectories tree other) {content left : Bytes}
    (reads : tree.read path = .ok content) (otherReads : other.read path = .ok left) :
    other.canBackUp path = tree.canBackUp path := by
  obtain ⟨location, located, stands⟩ := read_eq_ok_iff.mp reads
  obtain ⟨place, found, stays⟩ := read_eq_ok_iff.mp otherReads
  have samePlace : place = location := by
    rw [eq_of_locate found, eq_of_locate located, same.statedLocation]
  subst samePlace
  rw [Bool.eq_iff_iff, canBackUp_iff otherProper found stays, canBackUp_iff proper located stands]
  exact ⟨fun fits => same.symm.backupFits fits, fun fits => same.backupFits fits⟩

/-- The locations that bringing a header up to date may change. -/
def touchedBy (tree : FileTree) (headers : List Path) : List Location :=
  headers.flatMap fun path => [tree.statedLocation path, backupOf (tree.statedLocation path)]

/-- What bringing the classes of some headers up to date does. -/
structure HeadersOutcome (generator : Generator) (tree : FileTree) (headers : List Path)
    (scriptsOf : Path → List ScriptClass) (after : FileTree) : Prop where
  changes : ChangesOnly (touchedBy tree headers) tree after
  header : ∀ path ∈ headers, ∀ content, tree.read path = .ok content →
    ∃ left, after.standsAt? (tree.statedLocation path) = some (.file left) ∧
      Utf8.SameText left (generator.updatedContent tree path (scriptsOf path) content)
  stays : ∀ path ∈ headers, tree.IsFileAt (tree.statedLocation path) →
    after.IsFileAt (tree.statedLocation path)
  backup : ∀ path ∈ headers,
    after.standsAt? (backupOf (tree.statedLocation path)) = none ∨
      after.standsAt? (backupOf (tree.statedLocation path)) =
        tree.standsAt? (backupOf (tree.statedLocation path))

/-- Whether headers do not stand in each other's way. -/
structure Apart (tree : FileTree) (headers : List Path) : Prop where
  distinct : headers.Pairwise fun left right =>
    tree.statedLocation left ≠ tree.statedLocation right
  backups : ∀ left ∈ headers, ∀ right ∈ headers,
    backupOf (tree.statedLocation left) ≠ tree.statedLocation right

theorem headersOutcome_singleton (proper : tree.Proper) {scriptsOf : Path → List ScriptClass}
    (ofHeader : ∀ script ∈ scriptsOf path, root.join script.header = path)
    (readable : scriptsOf path ≠ [] → ∃ content, tree.read path = .ok content) :
    HeadersOutcome generator tree [path] scriptsOf
      (generator.injectAll root tree (scriptsOf path)).1 := by
  by_cases reads : ∃ content, tree.read path = .ok content
  · obtain ⟨content, reads⟩ := reads
    obtain ⟨location, located, stands⟩ := read_eq_ok_iff.mp reads
    have outcome := @headerOutcome generator tree root path proper location content located stands
      (scriptsOf path) ofHeader
    have stated := eq_of_locate located
    have only : ∀ {other : Bytes}, tree.read path = .ok other → other = content := by
      intro other readsOther
      rw [reads] at readsOther
      cases readsOther
      rfl
    subst stated
    refine ⟨outcome.changes, ?_, ?_, ?_⟩
    · simp only [List.forall_mem_singleton]
      intro other readsOther
      rw [only readsOther]
      exact outcome.header
    · simp only [List.forall_mem_singleton]
      obtain ⟨left, leaves, _⟩ := outcome.header
      exact fun _ => ⟨left, leaves⟩
    · simpa using outcome.backup
  · have nothing : scriptsOf path = [] := by
      by_contra some
      exact reads (readable some)
    have unread : ∀ content, tree.read path ≠ .ok content :=
      fun content readsContent => reads ⟨content, readsContent⟩
    rw [nothing]
    refine ⟨(ChangesOnly.refl proper).mono (by simp), ?_, fun _ _ isFile => isFile, ?_⟩
    · simp [unread]
    · simp [injectAll]

theorem mem_touchedBy {headers : List Path} {location : Location} :
    location ∈ touchedBy tree headers ↔ ∃ path ∈ headers,
      location = tree.statedLocation path ∨ location = backupOf (tree.statedLocation path) := by
  simp [touchedBy]

theorem Apart.untouched {rest : List Path} (apart : Apart tree (path :: rest)) :
    ∀ other ∈ rest, tree.statedLocation other ∉ touchedBy tree [path] := by
  intro other listed touched
  obtain ⟨same, listedHere, stated | backup⟩ := mem_touchedBy.mp touched
  · rw [List.mem_singleton.mp listedHere] at stated
    exact (List.pairwise_cons.mp apart.distinct).1 other listed stated.symm
  · rw [List.mem_singleton.mp listedHere] at backup
    exact apart.backups path List.mem_cons_self other (List.mem_cons_of_mem _ listed) backup.symm

section

variable {rest : List Path} {scriptsOf : Path → List ScriptClass} {middle after : FileTree}
  (apart : Apart tree (path :: rest))
  (first : HeadersOutcome generator tree [path] scriptsOf middle)
  (second : HeadersOutcome generator middle rest scriptsOf after)

include first second

theorem HeadersOutcome.changes_behind : ChangesOnly (touchedBy tree rest) middle after := by
  have changes := second.changes
  rwa [show touchedBy middle rest = touchedBy tree rest by
    simp only [touchedBy, first.changes.same.statedLocation]] at changes

include apart

theorem HeadersOutcome.standsAt?_first : after.standsAt? (tree.statedLocation path) =
    middle.standsAt? (tree.statedLocation path) := by
  refine (first.changes_behind second).outside _ fun touched => ?_
  obtain ⟨other, listed, sameLocation | backup⟩ := mem_touchedBy.mp touched
  · exact (List.pairwise_cons.mp apart.distinct).1 other listed sameLocation
  · exact apart.backups other (List.mem_cons_of_mem _ listed) path List.mem_cons_self backup.symm

/-- Two headers may have one place for their backups, but none of them leaves anything there. -/
theorem HeadersOutcome.backup_cons : ∀ other ∈ path :: rest,
    after.standsAt? (backupOf (tree.statedLocation other)) = none ∨
      after.standsAt? (backupOf (tree.statedLocation other)) =
        tree.standsAt? (backupOf (tree.statedLocation other)) := by
  have firstBackup := first.backup path (List.mem_singleton_self _)
  have backupOfRest : ∀ other ∈ rest,
      after.standsAt? (backupOf (tree.statedLocation other)) = none ∨
        after.standsAt? (backupOf (tree.statedLocation other)) =
          middle.standsAt? (backupOf (tree.statedLocation other)) := by
    intro other listed
    have backup := second.backup other listed
    rwa [first.changes.same.statedLocation] at backup
  rw [List.forall_mem_cons]
  constructor
  · by_cases touched : backupOf (tree.statedLocation path) ∈ touchedBy tree rest
    · obtain ⟨other, listed, sameLocation | backup⟩ := mem_touchedBy.mp touched
      · exact (apart.backups path List.mem_cons_self other (List.mem_cons_of_mem _ listed)
          sameLocation).elim
      · rcases backupOfRest other listed with none | unchanged
        · exact Or.inl (backup ▸ none)
        · rw [backup, unchanged, ← backup]
          exact firstBackup
    · rw [(first.changes_behind second).outside _ touched]
      exact firstBackup
  · intro other listed
    rcases backupOfRest other listed with none | unchanged
    · exact Or.inl none
    · rw [unchanged]
      by_cases sameBackup : backupOf (tree.statedLocation other) =
          backupOf (tree.statedLocation path)
      · rw [sameBackup]
        exact firstBackup
      · refine Or.inr (first.changes.outside _ fun touched => ?_)
        obtain ⟨header, listedHere, sameLocation | backup⟩ := mem_touchedBy.mp touched
        · rw [List.mem_singleton.mp listedHere] at sameLocation
          exact apart.backups other (List.mem_cons_of_mem _ listed) path List.mem_cons_self
            sameLocation
        · rw [List.mem_singleton.mp listedHere] at backup
          exact sameBackup backup

theorem HeadersOutcome.cons (proper : tree.Proper) :
    HeadersOutcome generator tree (path :: rest) scriptsOf after := by
  have same := first.changes.same
  have reads : ∀ other ∈ rest, ∀ content,
      middle.read other = .ok content ↔ tree.read other = .ok content :=
    fun other listed content => read_of_changesOnly first.changes (apart.untouched other listed)
  have possible : ∀ other ∈ rest, ∀ content, tree.read other = .ok content →
      middle.canBackUp other = tree.canBackUp other :=
    fun other listed content readsOther => canBackUp_of_sameDirectories proper first.changes.proper
      same readsOther ((reads other listed content).mpr readsOther)
  have staysHere := HeadersOutcome.standsAt?_first apart first second
  refine ⟨?_, ?_, ?_, HeadersOutcome.backup_cons apart first second⟩
  · refine (first.changes.mono ?_).trans ((first.changes_behind second).mono ?_)
    · intro location touched
      obtain ⟨other, listed, shape⟩ := mem_touchedBy.mp touched
      rw [List.mem_singleton.mp listed] at shape
      exact mem_touchedBy.mpr ⟨path, List.mem_cons_self, shape⟩
    · intro location touched
      obtain ⟨other, listed, shape⟩ := mem_touchedBy.mp touched
      exact mem_touchedBy.mpr ⟨other, List.mem_cons_of_mem _ listed, shape⟩
  · rw [List.forall_mem_cons]
    constructor
    · intro content readsHere
      rw [staysHere]
      exact first.header path (List.mem_singleton_self _) content readsHere
    · intro other listed content readsOther
      have left := second.header other listed content ((reads other listed content).mpr readsOther)
      rwa [same.statedLocation, updatedContent, possible other listed content readsOther,
        ← updatedContent] at left
  · rw [List.forall_mem_cons]
    constructor
    · intro isFile
      obtain ⟨content, stands⟩ := first.stays path (List.mem_singleton_self _) isFile
      exact ⟨content, staysHere.trans stands⟩
    · rintro other listed ⟨content, stands⟩
      have inMiddle := first.changes.outside _ (apart.untouched other listed)
      have isFile := second.stays other listed
      rw [same.statedLocation] at isFile
      exact isFile ⟨content, inMiddle.trans stands⟩

end

theorem headersOutcome (proper : tree.Proper) {headers : List Path}
    {scriptsOf : Path → List ScriptClass}
    (ofHeader : ∀ path ∈ headers, ∀ script ∈ scriptsOf path, root.join script.header = path)
    (readable : ∀ path ∈ headers, scriptsOf path ≠ [] → ∃ content, tree.read path = .ok content)
    (apart : Apart tree headers) :
    HeadersOutcome generator tree headers scriptsOf
      (generator.injectAll root tree (headers.flatMap scriptsOf)).1 := by
  induction headers generalizing tree with
  | nil =>
      exact ⟨ChangesOnly.refl proper, by simp, by simp, by simp⟩
  | cons path rest induction =>
      obtain ⟨here, others⟩ := List.forall_mem_cons.mp ofHeader
      obtain ⟨readableHere, readableOthers⟩ := List.forall_mem_cons.mp readable
      rw [List.flatMap_cons, injectAll_append]
      have first := @headersOutcome_singleton generator tree root path proper scriptsOf here
        readableHere
      have same := first.changes.same
      refine HeadersOutcome.cons apart first
        (induction first.changes.proper others ?_ ⟨?_, ?_⟩) proper
      · intro other listed someScripts
        obtain ⟨content, reads⟩ := readableOthers other listed someScripts
        exact ⟨content, (read_of_changesOnly first.changes (apart.untouched other listed)).mpr reads⟩
      · simpa only [same.statedLocation] using (List.pairwise_cons.mp apart.distinct).2
      · intro left inLeft right inRight
        rw [same.statedLocation, same.statedLocation]
        exact apart.backups left (List.mem_cons_of_mem _ inLeft) right
          (List.mem_cons_of_mem _ inRight)

end Generator

end ScriptRegistrar
