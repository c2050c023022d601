import ScriptRegistrar.FileTree.Operation
import ScriptRegistrar.Proofs.FileTree.Proper
import ScriptRegistrar.Proofs.Text.WordSearch

/-!
# Naming entries

A path that names an entry states the location of that entry, and its target is the same in every
tree with the same directories.  A path that leads to a file names it.
-/

namespace ScriptRegistrar.FileTree

open Text

theorem isEmpty_of_mem_takeWhile {pieces : List (List Char)} :
    ∀ piece ∈ pieces.takeWhile List.isEmpty, piece = [] :=
  fun piece member =>
    List.isEmpty_iff.mp (List.all_eq_true.mp List.all_takeWhile piece member)

/-- How the pieces of a path name an entry: the pieces before, the name and the slashes behind. -/
structure NamedParts (tree : FileTree) (path : Path) (parent : Location) (last : List Char)
    (slashes : List (List Char)) : Prop where
  checked : checkPath path = .ok ()
  parts : ∃ before, path.pieces = before ++ last :: slashes ∧
    tree.follow (tree.origin path) before = .ok parent
  empty : ∀ piece ∈ slashes, piece = []
  isName : IsNamePiece last
  inDirectory : tree.standsAt? parent = some .directory

namespace NamedParts

variable {tree other : FileTree} {path : Path} {parent : Location} {last : List Char}
  {slashes : List (List Char)} (named : NamedParts tree path parent last slashes)

include named

theorem target_eq :
    tree.target path = .ok ⟨parent, some (String.ofList last), !slashes.isEmpty⟩ := by
  obtain ⟨before, pieces, followed⟩ := named.parts
  have allEmpty : ∀ piece ∈ slashes.reverse, piece.isEmpty = true := fun piece member =>
    List.isEmpty_iff.mpr (named.empty piece (List.mem_reverse.mp member))
  have notEmpty : last.isEmpty = false := List.isEmpty_eq_false_iff.mpr named.isName.ne_nil
  have backwards : path.pieces.reverse = slashes.reverse ++ last :: before.reverse := by
    rw [pieces]
    simp
  have notDot : last ≠ ['.'] := by
    rintro rfl
    exact absurd named.isName.notIdle (by decide)
  unfold target
  rw [named.checked]
  simp only [backwards, List.takeWhile_append_of_pos allEmpty,
    List.dropWhile_append_of_pos allEmpty, List.takeWhile_cons, List.dropWhile_cons, notEmpty]
  simp [followed, named.inDirectory, notDot, named.isName.notAbove, bind, Except.bind]

theorem statedLocation_eq : tree.statedLocation path = parent ++ [String.ofList last] := by
  obtain ⟨before, pieces, followed⟩ := named.parts
  have idle : ∀ location, statedFrom location slashes = location := by
    intro location
    have empty := named.empty
    clear pieces named
    induction slashes with
    | nil => rfl
    | cons piece rest induction =>
        obtain ⟨rfl, others⟩ := List.forall_mem_cons.mp empty
        exact induction others
  change statedFrom (tree.origin path) path.pieces = _
  rw [pieces, statedFrom_append, ← eq_of_follow followed, ← List.singleton_append,
    statedFrom_append, statedFrom_singleton named.isName, idle]

theorem isEntryName : IsEntryName (String.ofList last) := by
  obtain ⟨before, pieces, _⟩ := named.parts
  refine ⟨by simpa using named.isName, ?_⟩
  intro member
  have piece : last ∈ fields (· = '/') path.text.toList := by
    rw [show fields (· = '/') path.text.toList = path.pieces from rfl, pieces]
    simp
  have plain := (mem_of_mem_fields piece '/' (by simpa using member)).2
  simp at plain

theorem of_sameDirectories (same : SameDirectories tree other) :
    NamedParts other path parent last slashes := by
  obtain ⟨before, pieces, followed⟩ := named.parts
  have directory := (same.directory parent).mpr named.inDirectory
  have stands : (other.standsAt? parent).isSome = true := by
    rw [directory]
    rfl
  exact ⟨named.checked, ⟨before, pieces, same.origin path ▸ same.follow followed stands⟩,
    named.empty, named.isName, directory⟩

end NamedParts

variable {tree other : FileTree} {path : Path}

theorem NamedParts.locate {parent : Location} {last : List Char}
    (named : NamedParts tree path parent last []) (short : byteLength last ≤ nameLimit)
    (stands : (tree.standsAt? (parent ++ [String.ofList last])).isSome = true) :
    tree.locate path = .ok (parent ++ [String.ofList last]) := by
  obtain ⟨before, pieces, followed⟩ := named.parts
  refine locate_eq_ok_iff.mpr ⟨named.checked, ?_⟩
  rw [pieces, follow_append, followed]
  change tree.follow parent [last] = _
  rw [follow_singleton named.isName named.inDirectory, if_neg (Nat.not_lt.mpr short), if_pos stands]

/-- A target with a name comes from a path that names an entry. -/
theorem namedParts_of_target {target : Target} {name : String}
    (found : tree.target path = .ok target) (hasName : target.name = some name) :
    ∃ last slashes, NamedParts tree path target.parent last slashes ∧
      name = String.ofList last ∧ target.asDirectory = !slashes.isEmpty := by
  unfold FileTree.target at found
  cases checked : checkPath path with
  | error failure =>
      rw [checked] at found
      cases found
  | ok done =>
      rw [checked] at found
      simp only [bind, Except.bind] at found
      have whole := List.takeWhile_append_dropWhile (p := List.isEmpty) (l := path.pieces.reverse)
      split at found
      · cases found
        cases hasName
      · rename_i last before shape
        rw [shape] at whole
        split at found
        · cases found
        · rename_i parent followed
          split at found
          · cases found
          · rename_i inDirectory
            split at found
            · cases found
              cases hasName
            · rename_i notDots
              cases found
              cases hasName
              have stops := List.head?_dropWhile_not List.isEmpty path.pieces.reverse
              rw [shape] at stops
              simp only [Bool.or_eq_true, decide_eq_true_eq, not_or] at notDots
              have pieces := congrArg List.reverse whole
              rw [List.reverse_append, List.reverse_cons, List.reverse_reverse, List.append_assoc,
                List.singleton_append] at pieces
              refine ⟨last, _, ⟨checked, ⟨_, pieces.symm, followed⟩, ?_, ⟨?_, notDots.2⟩,
                Decidable.not_not.mp inDirectory⟩, rfl, by simp⟩
              · intro piece member
                exact isEmpty_of_mem_takeWhile piece (List.mem_reverse.mp member)
              · have notEmpty : last ≠ [] := by simpa using stops
                simp [Path.isIdle, notEmpty, notDots.1]

/-- A path that leads to a file names it, without a slash behind. -/
theorem namedParts_of_locate (proper : tree.Proper) {location : Location}
    (located : tree.locate path = .ok location)
    (notDirectory : tree.standsAt? location ≠ some .directory) :
    ∃ last, NamedParts tree path location.dropLast last [] ∧
      location = location.dropLast ++ [String.ofList last] ∧ byteLength last ≤ nameLimit ∧
        (tree.standsAt? location).isSome = true := by
  obtain ⟨checked, followed⟩ := locate_eq_ok_iff.mp located
  rcases List.eq_nil_or_concat path.pieces with nothing | ⟨before, last, pieces⟩
  · exact (fields_ne_nil _ _ nothing).elim
  · rw [List.concat_eq_append] at pieces
    rw [pieces, follow_append] at followed
    cases first : tree.follow (tree.origin path) before with
    | error failure =>
        rw [first] at followed
        cases followed
    | ok parent =>
        rw [first] at followed
        change tree.follow parent [last] = .ok location at followed
        cases follow_eq_ok_iff.mp followed with
        | idle directory isIdle behind =>
            cases behind
            exact (notDirectory directory).elim
        | above directory behind =>
            cases behind
            have stands : (tree.standsAt? parent).isSome = true := by
              rw [directory]
              rfl
            exact (notDirectory (proper.standsAt?_dropLast stands)).elim
        | inside directory isName short stands behind =>
            cases behind
            rw [List.dropLast_concat]
            exact ⟨last, ⟨checked, ⟨before, pieces, first⟩, by simp, isName, directory⟩, rfl, short,
              stands⟩

theorem read_eq_ok_iff {content : Bytes} : tree.read path = .ok content ↔
    ∃ location, tree.locate path = .ok location ∧
      tree.standsAt? location = some (.file content) := by
  unfold read
  cases located : tree.locate path with
  | error failure => simp [bind, Except.bind]
  | ok location =>
      cases stands : tree.standsAt? location with
      | none => simp [bind, Except.bind, stands]
      | some entry => cases entry <;> simp [bind, Except.bind, stands]

theorem readText_of_read {content : Bytes} (reads : tree.read path = .ok content) :
    tree.readText path = match Utf8.decode? content with
      | some text => .ok text
      | none => .error .notText := by
  rw [readText, reads]
  rfl

theorem readText_eq_ok_iff {text : String} : tree.readText path = .ok text ↔
    ∃ content, tree.read path = .ok content ∧ Utf8.decode? content = some text := by
  cases reads : tree.read path with
  | error failure => simp [readText, reads, bind, Except.bind]
  | ok content =>
      rw [readText_of_read reads]
      cases decoded : Utf8.decode? content <;> simp [decoded]

end ScriptRegistrar.FileTree
