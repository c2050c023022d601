import ScriptRegistrar.FileTree.Resolution

/-!
# Following paths

Where a path leads is decided by the directories on the way and by whether anything stands at its
end.  So two trees with the same directories lead a path to the same place if something stands
there in both, and that place is the one the text of the path states.
-/

namespace ScriptRegistrar.FileTree

open Text

/-- Whether two trees have the same directories, and relative paths start from the same one. -/
structure SameDirectories (tree other : FileTree) : Prop where
  workingDirectory : other.workingDirectory = tree.workingDirectory
  directory : ∀ location, other.standsAt? location = some .directory ↔
    tree.standsAt? location = some .directory

namespace SameDirectories

variable {tree other third : FileTree}

theorem refl (tree : FileTree) : SameDirectories tree tree :=
  ⟨rfl, fun _ => Iff.rfl⟩

theorem symm (same : SameDirectories tree other) : SameDirectories other tree :=
  ⟨same.workingDirectory.symm, fun location => (same.directory location).symm⟩

theorem trans (first : SameDirectories tree other) (second : SameDirectories other third) :
    SameDirectories tree third :=
  ⟨second.workingDirectory.trans first.workingDirectory,
    fun location => (second.directory location).trans (first.directory location)⟩

theorem origin (same : SameDirectories tree other) (path : Path) :
    other.origin path = tree.origin path := by
  rw [FileTree.origin, FileTree.origin, same.workingDirectory]

end SameDirectories

/-- A piece of a path that names an entry of the directory it is looked up in. -/
structure IsNamePiece (piece : List Char) : Prop where
  notIdle : Path.isIdle piece = false
  notAbove : piece ≠ ['.', '.']

instance (piece : List Char) : Decidable (IsNamePiece piece) :=
  decidable_of_iff (Path.isIdle piece = false ∧ piece ≠ ['.', '.'])
    ⟨fun both => ⟨both.1, both.2⟩, fun isName => ⟨isName.notIdle, isName.notAbove⟩⟩

theorem IsNamePiece.ne_nil {piece : List Char} (isName : IsNamePiece piece) : piece ≠ [] := by
  rintro rfl
  exact absurd isName.notIdle (by decide)

/-- The location that some pieces state. -/
def statedFrom (location : Location) (pieces : List (List Char)) : Location :=
  pieces.foldl (fun location piece =>
    if Path.isIdle piece then location
    else if piece = ['.', '.'] then location.dropLast
    else location ++ [String.ofList piece]) location

@[simp] theorem statedFrom_append (location : Location) (first second : List (List Char)) :
    statedFrom location (first ++ second) = statedFrom (statedFrom location first) second :=
  List.foldl_append

theorem statedFrom_singleton {location : Location} {piece : List Char}
    (isName : IsNamePiece piece) :
    statedFrom location [piece] = location ++ [String.ofList piece] := by
  simp [statedFrom, isName.notIdle, isName.notAbove]

theorem statedFrom_names {location : Location} {names : List (List Char)}
    (areNames : ∀ piece ∈ names, IsNamePiece piece) :
    statedFrom location names = location ++ names.map String.ofList := by
  induction names generalizing location with
  | nil => simp [statedFrom]
  | cons piece rest induction =>
      obtain ⟨isName, others⟩ := List.forall_mem_cons.mp areNames
      have split := statedFrom_append location [piece] rest
      rw [List.singleton_append] at split
      rw [split, statedFrom_singleton isName, induction others]
      simp

theorem follow_append (tree : FileTree) (location : Location) (first second : List (List Char)) :
    tree.follow location (first ++ second) =
      (tree.follow location first).bind fun inner => tree.follow inner second := by
  induction first generalizing location with
  | nil => rfl
  | cons piece rest induction =>
      rw [List.cons_append]
      simp only [follow]
      split
      · rfl
      · split
        · exact induction location
        · split
          · exact induction _
          · split
            · rfl
            · split
              · exact induction _
              · rfl

theorem follow_singleton {tree : FileTree} {location : Location} {piece : List Char}
    (isName : IsNamePiece piece) (directory : tree.standsAt? location = some .directory) :
    tree.follow location [piece] =
      if nameLimit < byteLength piece then .error .nameTooLong
      else if (tree.standsAt? (location ++ [String.ofList piece])).isSome then
        .ok (location ++ [String.ofList piece])
      else .error .notFound := by
  simp [follow, isName.notIdle, isName.notAbove, directory]

/-- Whether pieces lead from a location to another one, each of them from a directory. -/
inductive Leads (tree : FileTree) : Location → List (List Char) → Location → Prop where
  | nil (location : Location) : Leads tree location [] location
  /-- A piece that stays where it is. -/
  | idle {location found : Location} {piece : List Char} {rest : List (List Char)}
      (directory : tree.standsAt? location = some .directory) (isIdle : Path.isIdle piece = true)
      (behind : Leads tree location rest found) : Leads tree location (piece :: rest) found
  /-- Two dots. -/
  | above {location found : Location} {rest : List (List Char)}
      (directory : tree.standsAt? location = some .directory)
      (behind : Leads tree location.dropLast rest found) :
      Leads tree location (['.', '.'] :: rest) found
  /-- The name of an entry. -/
  | inside {location found : Location} {piece : List Char} {rest : List (List Char)}
      (directory : tree.standsAt? location = some .directory) (isName : IsNamePiece piece)
      (short : byteLength piece ≤ nameLimit)
      (stands : (tree.standsAt? (location ++ [String.ofList piece])).isSome = true)
      (behind : Leads tree (location ++ [String.ofList piece]) rest found) :
      Leads tree location (piece :: rest) found

theorem follow_eq_ok_iff {tree : FileTree} {location found : Location}
    {pieces : List (List Char)} :
    tree.follow location pieces = .ok found ↔ Leads tree location pieces found := by
  constructor
  · intro followed
    induction pieces generalizing location with
    | nil =>
        cases followed
        exact .nil _
    | cons piece rest induction =>
        simp only [follow] at followed
        split at followed
        · cases followed
        · rename_i notElsewhere
          have directory := Decidable.not_not.mp notElsewhere
          split at followed
          · rename_i isIdle
            exact .idle directory isIdle (induction followed)
          · rename_i notIdle
            split at followed
            · rename_i isAbove
              rw [isAbove]
              exact .above directory (induction followed)
            · rename_i notAbove
              split at followed
              · cases followed
              · rename_i notLong
                split at followed
                · rename_i stands
                  exact .inside directory ⟨by simpa using notIdle, notAbove⟩
                    (Nat.le_of_not_lt notLong) stands (induction followed)
                · cases followed
  · intro leads
    induction leads with
    | nil location => rfl
    | idle directory isIdle behind induction => simp [follow, directory, isIdle, induction]
    | above directory behind induction =>
        have notIdle : Path.isIdle ['.', '.'] = false := by decide
        simp [follow, directory, notIdle, induction]
    | inside directory isName short stands behind induction =>
        simp [follow, directory, isName.notIdle, isName.notAbove, Nat.not_lt.mpr short, stands,
          induction]

/-- Pieces lead to the location they state. -/
theorem Leads.eq_statedFrom {tree : FileTree} {location found : Location}
    {pieces : List (List Char)} (leads : Leads tree location pieces found) :
    found = statedFrom location pieces := by
  induction leads with
  | nil location => rfl
  | idle directory isIdle behind induction =>
      rw [induction, statedFrom, statedFrom, List.foldl_cons, if_pos isIdle]
  | above directory behind induction => exact induction
  | inside directory isName short stands behind induction =>
      rw [induction, ← statedFrom_singleton isName, ← statedFrom_append, List.singleton_append]

theorem eq_of_follow {tree : FileTree} {location found : Location} {pieces : List (List Char)}
    (followed : tree.follow location pieces = .ok found) : found = statedFrom location pieces :=
  (follow_eq_ok_iff.mp followed).eq_statedFrom

/-- What pieces start from is a directory, unless there are no pieces. -/
theorem Leads.directory_or_eq {tree : FileTree} {location found : Location}
    {pieces : List (List Char)} (leads : Leads tree location pieces found) :
    tree.standsAt? location = some .directory ∨ location = found := by
  cases leads with
  | nil location => exact Or.inr rfl
  | idle directory isIdle behind => exact Or.inl directory
  | above directory behind => exact Or.inl directory
  | inside directory isName short stands behind => exact Or.inl directory

/-- A way with something at its end is a way in every tree with the same directories and something
at that end. -/
theorem SameDirectories.follow {tree other : FileTree} (same : SameDirectories tree other)
    {location found : Location} {pieces : List (List Char)}
    (followed : tree.follow location pieces = .ok found)
    (stands : (other.standsAt? found).isSome = true) : other.follow location pieces = .ok found := by
  rw [follow_eq_ok_iff] at followed ⊢
  induction followed with
  | nil location => exact .nil location
  | idle directory isIdle behind induction =>
      exact .idle ((same.directory _).mpr directory) isIdle (induction stands)
  | above directory behind induction =>
      exact .above ((same.directory _).mpr directory) (induction stands)
  | inside directory isName short _ behind induction =>
      refine .inside ((same.directory _).mpr directory) isName short ?_ (induction stands)
      rcases behind.directory_or_eq with passed | atEnd
      · rw [(same.directory _).mpr passed]
        rfl
      · rwa [atEnd]

variable {tree other : FileTree} {path : Path} {location : Location}

theorem locate_eq_ok_iff : tree.locate path = .ok location ↔
    checkPath path = .ok () ∧ tree.follow (tree.origin path) path.pieces = .ok location := by
  unfold locate
  cases checkPath path with
  | error failure =>
      constructor
      · intro located
        cases located
      · rintro ⟨⟨⟩, _⟩
  | ok done => exact ⟨fun located => ⟨rfl, located⟩, fun both => both.2⟩

/-- A path leads to the location that it states. -/
theorem eq_of_locate (located : tree.locate path = .ok location) :
    location = tree.statedLocation path :=
  eq_of_follow (locate_eq_ok_iff.mp located).2

theorem SameDirectories.statedLocation (same : SameDirectories tree other) (path : Path) :
    other.statedLocation path = tree.statedLocation path := by
  rw [FileTree.statedLocation, FileTree.statedLocation, same.origin]

theorem SameDirectories.locate (same : SameDirectories tree other)
    (located : tree.locate path = .ok location)
    (stands : (other.standsAt? location).isSome = true) : other.locate path = .ok location := by
  obtain ⟨checked, followed⟩ := locate_eq_ok_iff.mp located
  exact locate_eq_ok_iff.mpr ⟨checked, same.origin path ▸ same.follow followed stands⟩

end ScriptRegistrar.FileTree
