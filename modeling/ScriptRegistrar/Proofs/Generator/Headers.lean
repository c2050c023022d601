import ScriptRegistrar.Generator.Run
import ScriptRegistrar.Proofs.ClassPlaces
import ScriptRegistrar.Proofs.FileTree.PathsBelow
import ScriptRegistrar.Proofs.FileTree.Replacing

/-!
# The headers of a project

The headers of a project are files below its scripts directory, each at a location of its own, and
the aggregate is none of them.  Every class that is found in a header leads back to it.
-/

namespace ScriptRegistrar

open Text FileTree

/-- Whether a path leads to a directory. -/
structure FileTree.LeadsToDirectory (tree : FileTree) (path : Path) (location : Location) :
    Prop where
  located : tree.locate path = .ok location
  isDirectory : tree.standsAt? location = some .directory

theorem FileTree.isDirectory_iff {tree : FileTree} {path : Path} :
    tree.isDirectory path = true ↔ ∃ location, tree.LeadsToDirectory path location := by
  rw [isDirectory]
  cases located : tree.locate path with
  | error failure =>
      simp only [Bool.false_eq_true, false_iff, not_exists]
      intro location leads
      have found := leads.located
      rw [located] at found
      cases found
  | ok location =>
      rw [decide_eq_true_eq]
      constructor
      · exact fun directory => ⟨location, located, directory⟩
      · rintro ⟨other, leads⟩
        have same := leads.located
        rw [located] at same
        cases same
        exact leads.isDirectory

namespace FileTree.LeadsToDirectory

variable {tree other : FileTree} {path : Path} {location : Location}
  (leads : tree.LeadsToDirectory path location)

include leads

theorem text_ne : path.text ≠ "" := by
  intro empty
  have checked := (locate_eq_ok_iff.mp leads.located).1
  simp [checkPath, empty] at checked

theorem statedLocation_eq : tree.statedLocation path = location :=
  (eq_of_locate leads.located).symm

theorem of_sameDirectories (same : SameDirectories tree other) :
    other.LeadsToDirectory path location := by
  have directory := (same.directory location).mpr leads.isDirectory
  exact ⟨same.locate leads.located (by rw [directory]; rfl), directory⟩

/-- The first pieces of a path below a directory lead to the directory. -/
theorem follow_base {names : Location} {base : List (List Char)}
    (parts : Path.PiecesBelow path names base) :
    tree.follow (tree.origin (path.below names)) base = .ok location := by
  have sameOrigin : tree.origin (path.below names) = tree.origin path := by
    rw [origin, parts.absolute, origin]
  have followed := (locate_eq_ok_iff.mp leads.located).2
  rw [sameOrigin]
  rcases parts.outer with outer | outer
  · rwa [outer] at followed
  · rw [outer, follow_append] at followed
    cases first : tree.follow (tree.origin path) base with
    | error failure =>
        rw [first] at followed
        cases followed
    | ok inner =>
        rw [first] at followed
        change tree.follow inner [[]] = .ok location at followed
        cases follow_eq_ok_iff.mp followed with
        | idle directory isIdle behind =>
            cases behind
            rfl
        | inside directory isName short stands behind => exact (isName.ne_nil rfl).elim

end FileTree.LeadsToDirectory

theorem FileTree.SameDirectories.isDirectory {tree other : FileTree}
    (same : SameDirectories tree other) (path : Path) :
    other.isDirectory path = tree.isDirectory path := by
  rw [Bool.eq_iff_iff, isDirectory_iff, isDirectory_iff]
  exact exists_congr fun _ => ⟨fun leads => leads.of_sameDirectories same.symm,
    fun leads => leads.of_sameDirectories same⟩

namespace Generator

variable {generator : Generator} {tree other : FileTree} {root path : Path} {directory : Location}

/-- Whether a path is that of a file below a directory. -/
structure IsPathBelow (tree : FileTree) (root : Path) (directory : Location) (path : Path)
    (names : Location) : Prop where
  path_eq : path = root.below names
  nonempty : names ≠ []
  areNames : ∀ name ∈ names, IsEntryName name
  isFile : tree.IsFileAt (directory ++ names)

theorem headers_eq (leads : tree.LeadsToDirectory root directory) :
    generator.headers tree root =
      ((tree.fileLocations directory).filter fun names =>
        generator.isHeader root (root.below names)).map root.below := by
  rw [headers, filesBelow, leads.located]
  exact List.filter_map

theorem isPathBelow_of_listed (proper : tree.Proper)
    (leads : tree.LeadsToDirectory root directory) {names : Location}
    (listed : names ∈ tree.fileLocations directory) :
    IsPathBelow tree root directory (root.below names) names := by
  have stands := proper.mem_fileLocations.mp listed
  refine ⟨rfl, ?_, ?_, stands⟩
  · rintro rfl
    rw [List.append_nil] at stands
    exact stands.not_directory leads.isDirectory
  · intro name member
    obtain ⟨content, found⟩ := stands
    exact proper.isEntryName (by rw [found]; rfl) name (List.mem_append_right _ member)

theorem mem_headers (proper : tree.Proper) (leads : tree.LeadsToDirectory root directory) :
    path ∈ generator.headers tree root ↔
      generator.isHeader root path = true ∧
        ∃ names, IsPathBelow tree root directory path names := by
  rw [headers_eq leads, List.mem_map]
  constructor
  · rintro ⟨names, listed, rfl⟩
    obtain ⟨isFile, isHeader⟩ := List.mem_filter.mp listed
    exact ⟨isHeader, names, isPathBelow_of_listed proper leads isFile⟩
  · rintro ⟨isHeader, names, rfl, _, _, isFile⟩
    exact ⟨names, List.mem_filter.mpr ⟨proper.mem_fileLocations.mpr isFile, isHeader⟩, rfl⟩

namespace IsPathBelow

variable {names : Location} (below : IsPathBelow tree root directory path names)

include below

theorem statedLocation_eq (leads : tree.LeadsToDirectory root directory) :
    tree.statedLocation path = directory ++ names := by
  rw [below.path_eq, statedLocation_below tree leads.text_ne below.nonempty below.areNames,
    leads.statedLocation_eq]

theorem join_relative (leads : tree.LeadsToDirectory root directory) :
    root.join ((path.relativeTo? root).getD path) = path := by
  rw [below.path_eq, Path.relativeTo?_below leads.text_ne below.nonempty below.areNames]
  rfl

end IsPathBelow

/-- Two headers are at two locations. -/
theorem pairwise_headers (proper : tree.Proper) (leads : tree.LeadsToDirectory root directory) :
    (generator.headers tree root).Pairwise fun left right =>
      tree.statedLocation left ≠ tree.statedLocation right := by
  rw [headers_eq leads, List.pairwise_map]
  refine ((proper.nodup_fileLocations directory).filter _).imp_of_mem ?_
  intro left right inLeft inRight different same
  have leftBelow := isPathBelow_of_listed proper leads (List.mem_filter.mp inLeft).1
  have rightBelow := isPathBelow_of_listed proper leads (List.mem_filter.mp inRight).1
  rw [leftBelow.statedLocation_eq leads, rightBelow.statedLocation_eq leads] at same
  exact different (List.append_cancel_left same)

theorem headers_of_sameDirectories (proper : tree.Proper) (otherProper : other.Proper)
    (same : SameDirectories tree other) (leads : tree.LeadsToDirectory root directory)
    (sameFiles : ∀ names, generator.isHeader root (root.below names) = true →
      (other.IsFileAt (directory ++ names) ↔ tree.IsFileAt (directory ++ names))) :
    generator.headers other root = generator.headers tree root := by
  rw [headers_eq (leads.of_sameDirectories same), headers_eq leads,
    proper.filter_fileLocations_eq otherProper sameFiles]

/-- The name of the aggregate is one that a path can state, save for the names of the directory
itself and of the one above. -/
theorem plain_generatedFile (generator : Generator) :
    '/' ∉ generator.config.generatedFile.toList ∧ generator.config.generatedFile ≠ "" := by
  have plain : Config.isPlainFileName generator.config.generatedFile = true := by
    have valid := generator.valid
    unfold Config.complaint? at valid
    split at valid
    · cases valid
    · split at valid
      · cases valid
      · split at valid
        · cases valid
        · split at valid
          · cases valid
          · rename_i isPlain
            simpa using isPlain
  simp only [Config.isPlainFileName, Bool.and_eq_true, Bool.not_eq_true', List.contains_eq_mem,
    decide_eq_false_iff_not] at plain
  refine ⟨plain.1.2, fun empty => ?_⟩
  have blank := plain.1.1
  rw [empty] at blank
  cases blank

@[simp] theorem aggregatePath_eq (generator : Generator) (root : Path) :
    generator.aggregatePath root = root.below [generator.config.generatedFile] := by
  rw [aggregatePath, Path.below, String.intercalate_singleton]

theorem not_isHeader_aggregate (generator : Generator) (root : Path) :
    generator.isHeader root (root.below [generator.config.generatedFile]) = false := by
  simp [isHeader, ← aggregatePath_eq, Path.agrees]

section

variable (leads : tree.LeadsToDirectory root directory)

include leads

theorem exists_piecesBelow_aggregate :
    ∃ base, Path.PiecesBelow root [generator.config.generatedFile] base := by
  obtain ⟨plain, notEmpty⟩ := plain_generatedFile generator
  exact Path.piecesBelow leads.text_ne (List.cons_ne_nil _ []) (by simpa using plain)
    (by simpa using Ne.symm notEmpty)

/-- Where the aggregate is to stand there is no header. -/
theorem isDirectory_of_aggregate (proper : tree.Proper) {names : Location}
    (isHeader : generator.isHeader root (root.below names) = true)
    (atAggregate : directory ++ names = tree.statedLocation (generator.aggregatePath root)) :
    tree.standsAt? (directory ++ names) = some .directory := by
  by_cases isName : IsNamePiece generator.config.generatedFile.toList
  · have isEntry : IsEntryName generator.config.generatedFile :=
      ⟨isName, (plain_generatedFile generator).1⟩
    rw [aggregatePath_eq, statedLocation_below tree leads.text_ne (List.cons_ne_nil _ [])
      (by simpa using isEntry), leads.statedLocation_eq] at atAggregate
    rw [List.append_cancel_left atAggregate, not_isHeader_aggregate] at isHeader
    cases isHeader
  · -- The name is that of the directory itself or of the one above.
    obtain ⟨base, parts⟩ := @exists_piecesBelow_aggregate generator tree root directory leads
    have stated : tree.statedLocation (generator.aggregatePath root) =
        statedFrom directory [generator.config.generatedFile.toList] := by
      rw [aggregatePath_eq]
      change statedFrom (tree.origin _) (root.below _).pieces = _
      rw [parts.inner, statedFrom_append, ← eq_of_follow (leads.follow_base parts)]
      rfl
    rw [atAggregate, stated, statedFrom, List.foldl_cons, List.foldl_nil]
    split
    · exact leads.isDirectory
    · rename_i notIdle
      split
      · exact proper.standsAt?_dropLast (by rw [leads.isDirectory]; rfl)
      · rename_i notAbove
        exact (isName ⟨by simpa using notIdle, notAbove⟩).elim

theorem statedLocation_ne_aggregatePath (proper : tree.Proper) :
    ∀ path ∈ generator.headers tree root,
      tree.statedLocation path ≠ tree.statedLocation (generator.aggregatePath root) := by
  intro path listed same
  obtain ⟨isHeader, names, below⟩ := (mem_headers proper leads).mp listed
  rw [below.statedLocation_eq leads] at same
  rw [below.path_eq] at isHeader
  exact below.isFile.not_directory (isDirectory_of_aggregate leads proper isHeader same)

end

end Generator

end ScriptRegistrar
