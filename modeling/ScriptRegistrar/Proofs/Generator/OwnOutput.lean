import ScriptRegistrar.Proofs.Generator.HeaderIsolation

/-!
# What a run takes from an earlier one

The aggregate is no header, and it is overwritten without being read.  It is read all the same if
its name is that of the source beside a header: what an earlier run wrote there is then taken for
a registration by hand.
-/

namespace ScriptRegistrar

open Text FileTree

namespace Generator

variable {generator : Generator} {tree other : FileTree} {root path project : Path}
  {directory : Location}

section

variable (leads : tree.LeadsToDirectory root directory)

include leads

theorem target_aggregatePath_eq (same : SameDirectories tree other) :
    other.target (generator.aggregatePath root) = tree.target (generator.aggregatePath root) := by
  obtain ⟨base, parts⟩ := @exists_piecesBelow_aggregate generator tree root directory leads
  have notEmpty : generator.config.generatedFile.toList.isEmpty = false := by
    simpa using (plain_generatedFile generator).2
  have backwards : (root.below [generator.config.generatedFile]).pieces.reverse =
      generator.config.generatedFile.toList :: base.reverse := by
    rw [parts.inner]
    simp
  have otherLeads := leads.of_sameDirectories same
  rw [aggregatePath_eq, target, target, backwards]
  simp only [List.takeWhile_cons, List.dropWhile_cons, notEmpty, Bool.false_eq_true, if_false,
    List.reverse_reverse, leads.follow_base parts, otherLeads.follow_base parts, bind,
    Except.bind, leads.isDirectory, otherLeads.isDirectory]

variable (proper : tree.Proper)
  (changes : ChangesOnly [tree.statedLocation (generator.aggregatePath root)] tree other)

include proper changes

theorem headers_eq_of_aggregate : generator.headers other root = generator.headers tree root := by
  refine headers_of_sameDirectories proper changes.proper changes.same leads ?_
  intro names isHeader
  by_cases atAggregate : directory ++ names = tree.statedLocation (generator.aggregatePath root)
  · have isDirectory := isDirectory_of_aggregate leads proper isHeader atAggregate
    have otherIsDirectory := (changes.same.directory _).mpr isDirectory
    exact iff_of_false (fun isFile => isFile.not_directory otherIsDirectory)
      fun isFile => isFile.not_directory isDirectory
  · rw [IsFileAt, IsFileAt, changes.outside _ (by simpa using atAggregate)]

theorem scan_eq_of_aggregate (atRoot : generator.config.scriptsRoot project = root) :
    generator.scan other project = generator.scan tree project := by
  have isDirectory := isDirectory_iff.mpr ⟨directory, leads⟩
  have otherIsDirectory := isDirectory_iff.mpr ⟨directory, leads.of_sameDirectories changes.same⟩
  have parts : (generator.headers tree root).map (generator.scanFile other root) =
      (generator.headers tree root).map (generator.scanFile tree root) := by
    refine List.map_congr_left fun path listed => ?_
    have untouched := statedLocation_ne_aggregatePath leads proper path listed
    obtain ⟨_, names, below⟩ := (mem_headers proper leads).mp listed
    rw [below.statedLocation_eq leads] at untouched
    rw [scanFile, below.read_eq leads proper changes (by simpa using untouched), scanFile]
  rw [scan, scan, atRoot, if_pos isDirectory, if_pos otherIsDirectory,
    headers_eq_of_aggregate leads proper changes, parts]

end

section

variable (atRoot : generator.config.scriptsRoot project = root) (proper : tree.Proper)
  (changes : ChangesOnly [tree.statedLocation (generator.aggregatePath root)] tree other)

include changes

section

include atRoot proper

theorem generate_alike_of_aggregate? (leads : tree.LeadsToDirectory root directory)
    (sameAggregate : generator.aggregate? other root (generator.scan tree project).records =
      generator.aggregate? tree root (generator.scan tree project).records) :
    (∃ failure, generator.generate tree project = ⟨tree, .error failure⟩ ∧
      generator.generate other project = ⟨other, .error failure⟩) ∨
    ∃ after left summary, generator.generate tree project = ⟨after, .ok summary⟩ ∧
      generator.generate other project = ⟨left, .ok summary⟩ ∧ ChangesOnly [] after left := by
  have isDirectory := isDirectory_iff.mpr ⟨directory, leads⟩
  have otherIsDirectory := isDirectory_iff.mpr ⟨directory, leads.of_sameDirectories changes.same⟩
  have sameScan := scan_eq_of_aggregate leads proper changes atRoot
  cases rendered : generator.aggregate? tree root (generator.scan tree project).records with
  | none =>
      rw [rendered] at sameAggregate
      refine Or.inl ⟨.sourceExtension generator.config.sourceExtension, ?_, ?_⟩
      · delta generate
        simp only [scriptsRoot_scan atRoot isDirectory, rendered]
      · delta generate
        simp only [sameScan, scriptsRoot_scan atRoot isDirectory, sameAggregate]
  | some text =>
      rw [rendered] at sameAggregate
      rcases write_alike proper changes (target_aggregatePath_eq leads changes.same)
        (Utf8.encode text) with ⟨failure, fails, otherFails⟩ | ⟨written, rewritten, wrote, rewrote, same⟩
      · refine Or.inl ⟨.aggregateWrite (generator.aggregatePath root) failure, ?_, ?_⟩
        · delta generate
          simp only [scriptsRoot_scan atRoot isDirectory, rendered, writeText, fails]
        · delta generate
          simp only [sameScan, scriptsRoot_scan atRoot isDirectory, sameAggregate, writeText,
            otherFails]
      · have properWritten := (changesOnly_of_write proper wrote).1.proper
        obtain ⟨sameNotes, alike⟩ := @injectAll_eq_of_changesOnly generator written rewritten root
          properWritten same ((generator.scan tree project).records.filter ScriptClass.wantsInjection)
        have ran := generate_of_written atRoot isDirectory rendered wrote
        have otherRan := generate_of_written atRoot otherIsDirectory
          (sameScan ▸ sameAggregate) rewrote
        rw [sameScan, sameNotes] at otherRan
        exact Or.inr ⟨_, _, _, ran, otherRan, alike⟩

end

variable (apart : ∀ script ∈ (generator.scan tree project).records, script.excluded = false →
  ∀ sibling, HandRegistration.siblingPath? generator.config root script.header = some sibling →
    tree.statedLocation sibling ≠ tree.statedLocation (generator.aggregatePath root))

include apart

theorem aggregate?_eq_of_aggregate :
    generator.aggregate? other root (generator.scan tree project).records =
      generator.aggregate? tree root (generator.scan tree project).records := by
  refine aggregate?_congr fun script listed => ?_
  obtain ⟨found, notExcluded⟩ := List.mem_filter.mp listed
  refine HandRegistration.isByHand?_of_changesOnly changes fun sibling beside => ?_
  simpa using apart script found (by simpa using notExcluded) sibling beside

include atRoot proper

theorem generate_alike (leads : tree.LeadsToDirectory root directory) :
    (∃ failure, generator.generate tree project = ⟨tree, .error failure⟩ ∧
      generator.generate other project = ⟨other, .error failure⟩) ∨
    ∃ after left summary, generator.generate tree project = ⟨after, .ok summary⟩ ∧
      generator.generate other project = ⟨left, .ok summary⟩ ∧ ChangesOnly [] after left :=
  generate_alike_of_aggregate? atRoot proper changes leads
    (aggregate?_eq_of_aggregate changes apart)

end

/-- If the aggregate is the source beside no header, a run does not depend on what an earlier run
wrote there: it ends alike, and leaves the same files. -/
theorem generate_ignores_aggregate (proper : tree.Proper)
    (changes : ChangesOnly
      [tree.statedLocation (generator.aggregatePath (generator.config.scriptsRoot project))] tree
      other)
    (apart : ∀ script ∈ (generator.scan tree project).records, script.excluded = false →
      ∀ sibling, HandRegistration.siblingPath? generator.config
          (generator.config.scriptsRoot project) script.header = some sibling →
        tree.statedLocation sibling ≠
          tree.statedLocation (generator.aggregatePath (generator.config.scriptsRoot project))) :
    (generator.generate other project).result = (generator.generate tree project).result ∧
      (∀ location,
        location ≠
            tree.statedLocation (generator.aggregatePath (generator.config.scriptsRoot project)) →
          (generator.generate other project).tree.standsAt? location =
            (generator.generate tree project).tree.standsAt? location) ∧
      (tree.isDirectory (generator.config.scriptsRoot project) = true →
        (∀ path ∈ generator.headers tree (generator.config.scriptsRoot project),
          tree.statedLocation path ≠
            tree.statedLocation (generator.aggregatePath (generator.config.scriptsRoot project))) ∧
        ((generator.generate tree project).result.isOk = true → ∀ location,
          (generator.generate other project).tree.standsAt? location =
            (generator.generate tree project).tree.standsAt? location)) := by
  by_cases isDirectory : tree.isDirectory (generator.config.scriptsRoot project) = true
  · obtain ⟨directory, leads⟩ := isDirectory_iff.mp isDirectory
    have notHeaders := @statedLocation_ne_aggregatePath generator tree _ directory leads proper
    rcases generate_alike rfl proper changes apart leads with
      ⟨failure, fails, otherFails⟩ | ⟨after, left, summary, ran, otherRan, alike⟩
    · rw [fails, otherFails]
      refine ⟨rfl, fun location outside => ?_, fun _ => ⟨notHeaders, fun isOk => ?_⟩⟩
      · exact changes.outside location (by simpa using outside)
      · cases isOk
    · have everywhere : ∀ location, left.standsAt? location = after.standsAt? location :=
        fun location => alike.outside location List.not_mem_nil
      rw [ran, otherRan]
      exact ⟨rfl, fun location _ => everywhere location, fun _ => ⟨notHeaders, fun _ => everywhere⟩⟩
  · have otherNotDirectory :
        other.isDirectory (generator.config.scriptsRoot project) ≠ true := by
      intro otherDirectory
      obtain ⟨directory, leads⟩ := isDirectory_iff.mp otherDirectory
      exact isDirectory (isDirectory_iff.mpr
        ⟨directory, leads.of_sameDirectories changes.same.symm⟩)
    rw [generate_of_not_directory (by simpa using otherNotDirectory),
      generate_of_not_directory (by simpa using isDirectory)]
    exact ⟨rfl, fun location outside => changes.outside location (by simpa using outside),
      fun directory => (isDirectory directory).elim⟩

theorem generate_ignores_aggregate_stale :
    let generator : Generator := ⟨{ baseClass := "B" }, .engineDefault, rfl⟩
    let root := generator.config.scriptsRoot ⟨"p"⟩
    let tree : FileTree := ⟨[(["p"], .directory), (["p", "Scripts"], .directory),
      (["p", "Scripts", "A.h"], .file (Utf8.encode "class A:public B\x7b\x7d;"))], []⟩
    let other := tree.set ["p", "Scripts", "ScriptRegistration.gen.cpp"]
      (.file (Utf8.encode "RTTR_REGISTRATION class_<A>"))
    (generator.generate other ⟨"p"⟩).result = (generator.generate tree ⟨"p"⟩).result ∧
      (∀ location, location ≠ tree.statedLocation (generator.aggregatePath root) →
        (generator.generate other ⟨"p"⟩).tree.standsAt? location =
          (generator.generate tree ⟨"p"⟩).tree.standsAt? location) ∧
      (tree.isDirectory root = true →
        (∀ path ∈ generator.headers tree root,
          tree.statedLocation path ≠ tree.statedLocation (generator.aggregatePath root)) ∧
        ((generator.generate tree ⟨"p"⟩).result.isOk = true → ∀ location,
          (generator.generate other ⟨"p"⟩).tree.standsAt? location =
            (generator.generate tree ⟨"p"⟩).tree.standsAt? location)) := by
  intro generator root tree other
  have proper : tree.Proper := by decide +kernel
  have stated : tree.statedLocation (generator.aggregatePath root) =
      ["p", "Scripts"] ++ ["ScriptRegistration.gen.cpp"] := by decide +kernel
  refine generate_ignores_aggregate proper ?_ ?_
  · rw [stated]
    exact ChangesOnly.set_file proper (Utf8.encode "RTTR_REGISTRATION class_<A>")
      (by decide +kernel) (by decide +kernel) (by decide +kernel)
  · change ∀ script ∈ _, _ → ∀ sibling ∈ HandRegistration.siblingPath? _ _ _, _ ≠ _
    decide +kernel

theorem generate_of_idle (atRoot : generator.config.scriptsRoot project = root)
    (leads : tree.LeadsToDirectory root directory) (proper : tree.Proper) {text : String}
    {written : FileTree}
    (rendered : generator.aggregate? tree root (generator.scan tree project).records = some text)
    (idle : (generator.scan tree project).records.filter ScriptClass.wantsInjection = [])
    (wrote : tree.writeText (generator.aggregatePath root) text = .ok written) :
    (generator.generate tree project).result.isOk = true ∧
      (generator.generate tree project).tree.standsAt?
          (tree.statedLocation (generator.aggregatePath root)) =
        some (.file (Utf8.encode text)) := by
  rw [generate_of_written atRoot (isDirectory_iff.mpr ⟨directory, leads⟩) rendered wrote, idle]
  exact ⟨rfl, (changesOnly_of_write proper wrote).2⟩

/-- A class whose source is the aggregate is registered only by every second run. -/
theorem generate_reads_aggregate :
    ¬ ∀ (generator : Generator) (tree other : FileTree) (project : Path), tree.Proper →
      ChangesOnly
        [tree.statedLocation (generator.aggregatePath (generator.config.scriptsRoot project))] tree
        other →
      (generator.generate tree project).result.isOk = true → ∀ location,
        (generator.generate other project).tree.standsAt? location =
          (generator.generate tree project).tree.standsAt? location := by
  intro claimed
  let generator : Generator :=
    ⟨{ baseClass := "B", generatedFile := "A.cpp", registration := { block := "R" } },
      .engineDefault, rfl⟩
  let root := generator.config.scriptsRoot ⟨"p"⟩
  let tree : FileTree := ⟨[(["p"], .directory), (["p", "Scripts"], .directory),
    (["p", "Scripts", "A.h"], .file (Utf8.encode "class A:public B\x7b\x7d;"))], []⟩
  let other := tree.set ["p", "Scripts", "A.cpp"] (.file (Utf8.encode "R class_<A>"))
  let script : ScriptClass := { name := "A", header := ⟨"A.h"⟩ }
  have proper : tree.Proper := by decide +kernel
  have leads : tree.LeadsToDirectory root ["p", "Scripts"] :=
    ⟨by decide +kernel, by decide +kernel⟩
  have stated : tree.statedLocation (generator.aggregatePath root) = ["p", "Scripts"] ++ ["A.cpp"] :=
    by decide +kernel
  have changes : ChangesOnly [tree.statedLocation (generator.aggregatePath root)] tree other := by
    rw [stated]
    exact ChangesOnly.set_file proper (Utf8.encode "R class_<A>") leads.isDirectory
      (by decide +kernel) (by decide +kernel)
  have records : (generator.scan tree ⟨"p"⟩).records = [script] := by decide +kernel
  obtain ⟨text, rendered⟩ := @exists_aggregate? generator root (by decide +kernel) tree [script]
  obtain ⟨otherText, otherRendered⟩ :=
    @exists_aggregate? generator root (by decide +kernel) other [script]
  have found : tree.target (generator.aggregatePath root) =
      .ok ⟨["p", "Scripts"], some "A.cpp", false⟩ := by decide +kernel
  have wrote : tree.writeText (generator.aggregatePath root) text =
      .ok (tree.set (["p", "Scripts"] ++ ["A.cpp"]) (.file (Utf8.encode text))) :=
    write_of_target found (Utf8.encode text)
  have rewrites : ∃ rewritten,
      other.writeText (generator.aggregatePath root) otherText = .ok rewritten :=
    changes.same.write wrote
  obtain ⟨rewritten, rewrote⟩ := rewrites
  have sameScan := scan_eq_of_aggregate leads proper changes rfl
  have idle : [script].filter ScriptClass.wantsInjection = [] := rfl
  obtain ⟨isOk, stands⟩ := generate_of_idle rfl leads proper (records ▸ rendered)
    (records ▸ idle) wrote
  obtain ⟨_, otherStands⟩ := generate_of_idle rfl (leads.of_sameDirectories changes.same)
    changes.proper (sameScan ▸ records ▸ otherRendered) (sameScan ▸ records ▸ idle) rewrote
  rw [changes.same.statedLocation, claimed generator tree other ⟨"p"⟩ proper changes isOk,
    stands] at otherStands
  have sameText : text = otherText := by
    simp only [Option.some.injEq, Entry.file.injEq] at otherStands
    exact Utf8.encode_injective otherStands
  have registered : generator.byHandIn other root script = true := by decide +kernel
  have notRegistered : generator.byHandIn tree root script = false := by decide +kernel
  rw [text_of_aggregate? rendered, text_of_aggregate? otherRendered] at sameText
  have empty : Aggregate.propertyChain script = "" := by
    simpa [Aggregate.render, script, Aggregate.classBlock, registered, notRegistered] using
      congrArg String.length sameText
  exact absurd empty (by decide +kernel)

end Generator

end ScriptRegistrar
