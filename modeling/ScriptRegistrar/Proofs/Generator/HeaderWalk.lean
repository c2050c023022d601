import ScriptRegistrar.Proofs.FileTree.Walk
import ScriptRegistrar.Proofs.Generator.OwnOutput

/-!
# The walk through the headers

The headers of a project are what a depth-first walk through its scripts directory meets of the
files with the extension of a header, save for the aggregate.  So each is listed once and in the
order of its location, and nothing depends on the order in which the files were made.
-/

namespace ScriptRegistrar

open Text FileTree

namespace Path

/-- Whether a file name ends in an extension: something stands in front of its last dot, and the
extension behind. -/
structure EndsInExtension (name extension : List Char) : Prop where
  exists_stem : ∃ stem, stem ≠ [] ∧ name = stem ++ '.' :: extension
  lastDot : '.' ∉ extension

theorem splitExtension_eq_some_iff {name extension : List Char} :
    (splitExtension name).2 = some extension ↔ EndsInExtension name extension := by
  constructor
  · intro found
    have noDot : '.' ∉ name.reverse.takeWhile (· ≠ '.') := by
      intro member
      simpa using List.all_eq_true.mp List.all_takeWhile '.' member
    have whole := @List.takeWhile_append_dropWhile _ (· ≠ '.') name.reverse
    have stops := List.head?_dropWhile_not (· ≠ '.') name.reverse
    simp only [splitExtension] at found
    generalize name.reverse.takeWhile (· ≠ '.') = run at noDot whole found
    split at found
    · cases found
    · cases found
    · rename_i dot stem nonempty shape
      cases found
      rw [shape] at whole stops
      have isDot : dot = '.' := by simpa using stops
      rw [isDot, ← List.reverse_inj, List.reverse_reverse] at whole
      exact ⟨⟨stem.reverse, fun empty => nonempty (List.reverse_eq_nil_iff.mp empty),
        by rw [← whole]; simp⟩, by simpa using noDot⟩
  · rintro ⟨⟨stem, nonempty, rfl⟩, lastDot⟩
    have backwards : (stem ++ '.' :: extension).reverse =
        extension.reverse ++ '.' :: stem.reverse := by simp
    have holds : ∀ character ∈ extension.reverse, decide (character ≠ '.') = true := by
      intro character member
      rw [decide_eq_true_eq]
      rintro rfl
      exact lastDot (List.mem_reverse.mp member)
    obtain ⟨last, before, shape⟩ :=
      List.exists_cons_of_ne_nil (fun empty => nonempty (List.reverse_eq_nil_iff.mp empty))
    have stops : ('.' :: stem.reverse).head?.any (fun character => decide (character ≠ '.')) =
        false := by rfl
    simp only [splitExtension, backwards, Cursor.takeWhile_append_of_stops holds stops,
      Cursor.dropWhile_append_of_stops holds stops]
    rw [shape]
    simp

theorem extension?_below {directory : Path} {names : Location} {last : String}
    (named : directory.text ≠ "") (areNames : ∀ name ∈ names ++ [last], IsEntryName name) :
    (directory.below (names ++ [last])).extension? = (splitExtension last.toList).2 := by
  obtain ⟨base, parts⟩ := piecesBelow_of_names named (by simp) areNames
  have isName := (areNames last (by simp)).isNamePiece
  have backwards : (directory.below (names ++ [last])).pieces.reverse =
      last.toList :: (base ++ names.map String.toList).reverse := by
    rw [parts.inner]
    simp
  have found : (directory.below (names ++ [last])).fileName? =
      some ((base ++ names.map String.toList).reverse, last.toList) := by
    rw [fileName?, backwards, List.dropWhile_cons_of_neg (by simp [isName.notIdle])]
    exact if_neg isName.notAbove
  rw [extension?, found]
  rfl

end Path

namespace Config

/-- Whether a configured extension is that of a file, where the dots in front of it and the case of
ASCII letters do not count. -/
def MatchesExtension (configured extension : List Char) : Prop :=
  ∃ dots bare, configured = dots ++ bare ∧ (∀ sign ∈ dots, sign = '.') ∧ bare.head? ≠ some '.' ∧
    bare.map Char.toLower = extension.map Char.toLower

/-- Whether a file name ends in a configured extension. -/
def HasHeaderExtension (config : Config) (name : String) : Prop :=
  ∃ extension, Path.EndsInExtension name.toList extension ∧
    ∃ configured ∈ config.headerExtensions, MatchesExtension configured.toList extension

theorem isHeaderExtension_iff {config : Config} {extension : List Char} :
    config.isHeaderExtension extension = true ↔
      ∃ configured ∈ config.headerExtensions, MatchesExtension configured.toList extension := by
  rw [isHeaderExtension, List.any_eq_true]
  refine exists_congr fun configured => and_congr_right fun _ => ?_
  rw [agreesUpToCase, decide_eq_true_eq]
  constructor
  · intro same
    refine ⟨_, _, List.takeWhile_append_dropWhile.symm, fun sign member => ?_, fun first => ?_, same⟩
    · simpa using List.all_eq_true.mp List.all_takeWhile sign member
    · have stops := List.head?_dropWhile_not (· = '.') configured.toList
      rw [first] at stops
      cases stops
  · rintro ⟨dots, bare, whole, areDots, noDot, same⟩
    rwa [whole, Cursor.dropWhile_append_of_stops (by simpa using areDots)]
    cases bare with
    | nil => rfl
    | cons first rest => simpa using noDot

end Config

namespace Generator

variable {generator : Generator} {tree other : FileTree} {root project : Path}
  {directory names : Location}

/-- Whether a header stands at a location below the scripts directory: a file with a configured
extension that is not the aggregate. -/
structure IsHeaderAt (generator : Generator) (tree : FileTree) (directory names : Location) :
    Prop where
  isFile : tree.IsFileAt (directory ++ names)
  hasExtension : ∃ name, names.getLast? = some name ∧ generator.config.HasHeaderExtension name
  notAggregate : names ≠ [generator.config.generatedFile]

section

variable (named : root.text ≠ "") (nonempty : names ≠ [])
  (areNames : ∀ name ∈ names, IsEntryName name)

include named nonempty areNames

theorem agrees_aggregatePath_iff :
    (root.below names).agrees (generator.aggregatePath root) = true ↔
      names = [generator.config.generatedFile] := by
  obtain ⟨plain, notEmpty⟩ := plain_generatedFile generator
  rw [Path.agrees, decide_eq_true_eq, aggregatePath_eq,
    Path.components_below named nonempty areNames,
    Path.components_below_of_plain named (List.cons_ne_nil _ []) (by simpa using plain)
      (by simpa using Ne.symm notEmpty), List.append_cancel_left_eq]
  by_cases idle : Path.isIdle generator.config.generatedFile.toList = true
  · -- The aggregate then has the name of the directory itself, which no file has.
    refine iff_of_false (by simpa [idle] using nonempty) ?_
    rintro rfl
    have notIdle := (areNames _ (List.mem_singleton_self _)).isNamePiece.notIdle
    rw [idle] at notIdle
    cases notIdle
  · simp [idle]

theorem isHeader_below_iff :
    generator.isHeader root (root.below names) = true ↔
      names ≠ [generator.config.generatedFile] ∧
        ∃ name, names.getLast? = some name ∧ generator.config.HasHeaderExtension name := by
  rw [isHeader, Bool.and_eq_true, Bool.not_eq_true', ← Bool.not_eq_true,
    agrees_aggregatePath_iff named nonempty areNames, Option.any_eq_true]
  refine and_congr_right fun _ => ?_
  obtain ⟨front, last, rfl⟩ := (List.eq_nil_or_concat names).resolve_left nonempty
  rw [List.concat_eq_append] at areNames ⊢
  simp only [Path.extension?_below named areNames, List.getLast?_concat, Option.some.injEq,
    Path.splitExtension_eq_some_iff, Config.isHeaderExtension_iff, Config.HasHeaderExtension,
    exists_eq_left']

end

theorem generate_of_changesOnly (proper : tree.Proper) (changes : ChangesOnly [] tree other)
    (project : Path) :
    generator.scan other project = generator.scan tree project ∧
      (generator.generate other project).result = (generator.generate tree project).result ∧
      ∀ location, (generator.generate other project).tree.standsAt? location =
        (generator.generate tree project).tree.standsAt? location := by
  by_cases isDirectory : tree.isDirectory (generator.config.scriptsRoot project) = true
  · obtain ⟨directory, leads⟩ := isDirectory_iff.mp isDirectory
    have outside : ChangesOnly [tree.statedLocation (generator.aggregatePath
        (generator.config.scriptsRoot project))] tree other := changes.mono (by simp)
    refine ⟨scan_eq_of_aggregate leads proper outside rfl, ?_⟩
    rcases generate_alike_of_aggregate? rfl proper outside leads (aggregate?_congr fun script _ =>
        HandRegistration.isByHand?_of_changesOnly changes fun _ _ => List.not_mem_nil) with
      ⟨failure, fails, otherFails⟩ | ⟨after, left, summary, ran, otherRan, alike⟩
    · rw [fails, otherFails]
      exact ⟨rfl, fun location => changes.outside location List.not_mem_nil⟩
    · rw [ran, otherRan]
      exact ⟨rfl, fun location => alike.outside location List.not_mem_nil⟩
  · have otherNotDirectory := isDirectory
    rw [← changes.same.isDirectory] at otherNotDirectory
    rw [generate_of_not_directory (by simpa using otherNotDirectory),
      generate_of_not_directory (by simpa using isDirectory)]
    refine ⟨?_, rfl, fun location => changes.outside location List.not_mem_nil⟩
    rw [scan, scan, if_neg isDirectory, if_neg otherNotDirectory]

/-- The headers of a project are what a depth-first walk through its scripts directory meets of the
files with a configured extension, save for the aggregate: all of them, each once, and in the order
of their locations compared name by name.  If the entries are listed in another order, as they are
when they were made in another order, a scan still finds the same, and a run ends alike and leaves
the same files. -/
theorem headers_eq_walk (generator : Generator) (proper : tree.Proper)
    (leads : tree.LeadsToDirectory root directory) :
    (∃ listed : List Location, generator.headers tree root = listed.map root.below ∧
      listed.Sublist (tree.walk directory) ∧
      (∀ names, names ∈ listed ↔ generator.IsHeaderAt tree directory names) ∧
      listed.Pairwise Precedes ∧
      ∀ names ∈ listed, (root.below names).components = root.components ++ names) ∧
    (generator.headers tree root).Nodup ∧
    ∀ other : FileTree, other.entries.Perm tree.entries →
      other.workingDirectory = tree.workingDirectory →
        generator.headers other root = generator.headers tree root ∧
        ∀ project, generator.scan other project = generator.scan tree project ∧
          (generator.generate other project).result = (generator.generate tree project).result ∧
          ∀ location, (generator.generate other project).tree.standsAt? location =
            (generator.generate tree project).tree.standsAt? location := by
  have below : ∀ names, tree.IsFileAt (directory ++ names) →
      IsPathBelow tree root directory (root.below names) names :=
    fun names isFile => isPathBelow_of_listed proper leads (proper.mem_fileLocations.mpr isFile)
  refine ⟨⟨_, headers_eq leads, ?_, fun names => ?_, ?_, fun names listed => ?_⟩, ?_, ?_⟩
  · rw [proper.walk_eq_fileLocations leads.isDirectory]
    exact List.filter_sublist
  · rw [List.mem_filter, proper.mem_fileLocations]
    constructor
    · rintro ⟨isFile, isHeader⟩
      obtain ⟨notAggregate, hasExtension⟩ :=
        (isHeader_below_iff leads.text_ne (below names isFile).nonempty
          (below names isFile).areNames).mp isHeader
      exact ⟨isFile, hasExtension, notAggregate⟩
    · rintro ⟨isFile, hasExtension, notAggregate⟩
      exact ⟨isFile, (isHeader_below_iff leads.text_ne (below names isFile).nonempty
        (below names isFile).areNames).mpr ⟨notAggregate, hasExtension⟩⟩
  · rw [← proper.walk_eq_fileLocations leads.isDirectory]
    exact (proper.pairwise_walk directory).filter _
  · have isFile := proper.mem_fileLocations.mp (List.mem_filter.mp listed).1
    exact Path.components_below leads.text_ne (below names isFile).nonempty
      (below names isFile).areNames
  · refine (pairwise_headers proper leads).imp fun apart same => apart (by rw [same])
  · intro other sameEntries sameWorking
    have changes := proper.changesOnly_of_perm sameEntries sameWorking
    refine ⟨?_, generate_of_changesOnly proper changes⟩
    refine headers_of_sameDirectories proper changes.proper changes.same leads fun names _ => ?_
    rw [IsFileAt, IsFileAt, changes.outside _ List.not_mem_nil]

/-- A directory `a` beside files whose names start alike, a file with no extension, and files with the
name of the aggregate in and below the scripts directory. -/
theorem headers_eq_walk_nested :
    let generator : Generator :=
      ⟨{ generatedFile := "R.h", headerExtensions := ["..h", "hpp"] }, .engineDefault, rfl⟩
    let root := generator.config.scriptsRoot ⟨"p"⟩
    let tree : FileTree := ⟨[(["p"], .directory), (["p", "Scripts"], .directory),
      (["p", "Scripts", "Ä.HPP"], .file []), (["p", "Scripts", "a.h"], .file []),
      (["p", "Scripts", "a"], .directory), (["p", "Scripts", "a", "z.h"], .file []),
      (["p", "Scripts", "a", "R.h"], .file []), (["p", "Scripts", ".h"], .file []),
      (["p", "Scripts", "R.h"], .file []), (["p", "Scripts", "a-b.h"], .file []),
      (["p", "Scripts", "a.h.bak"], .file [])], []⟩
    let other : FileTree := ⟨tree.entries.reverse, []⟩
    tree.Proper ∧ tree.LeadsToDirectory root ["p", "Scripts"] ∧
      other.entries.Perm tree.entries ∧
      (∃ listed : List Location, generator.headers tree root = listed.map root.below ∧
        (∀ names, names ∈ listed ↔ generator.IsHeaderAt tree ["p", "Scripts"] names) ∧
        listed.Pairwise Precedes) ∧
      generator.headers other root =
        [⟨"p/Scripts/a/R.h"⟩, ⟨"p/Scripts/a/z.h"⟩, ⟨"p/Scripts/a-b.h"⟩, ⟨"p/Scripts/a.h"⟩,
          ⟨"p/Scripts/Ä.HPP"⟩] := by
  intro generator root tree other
  have proper : tree.Proper := by decide +kernel
  have leads : tree.LeadsToDirectory root ["p", "Scripts"] :=
    ⟨by decide +kernel, by decide +kernel⟩
  have sameEntries : other.entries.Perm tree.entries := List.reverse_perm tree.entries
  obtain ⟨⟨listed, headers, _, complete, ordered, _⟩, _, anyOrder⟩ :=
    headers_eq_walk generator proper leads
  have listing : tree.fileLocations ["p", "Scripts"] = [[".h"], ["R.h"], ["a", "R.h"], ["a", "z.h"],
      ["a-b.h"], ["a.h"], ["a.h.bak"], ["Ä.HPP"]] :=
    List.Perm.eq_of_pairwise (fun _ _ _ _ => comesBefore_antisymm) (pairwise_fileLocations _ _)
      (by decide +kernel) ((List.mergeSort_perm _ _).trans (by decide +kernel))
  refine ⟨proper, leads, sameEntries, ⟨listed, headers, complete, ordered⟩, ?_⟩
  rw [(anyOrder other sameEntries rfl).1, Generator.headers_eq leads, listing]
  decide +kernel

end Generator

end ScriptRegistrar
