import ScriptRegistrar.Proofs.FileTree.Listing
import ScriptRegistrar.Proofs.FileTree.Targets

/-!
# Paths below a directory

The path of a file below a directory is the path of the directory and then the names on the way.
So it states the location of the file, leads from the directory to the file by those names again,
and has no more components than that.
-/

namespace ScriptRegistrar

open Text

namespace Path

/-- The path that some names lead to from a directory. -/
def below (directory : Path) (names : Location) : Path :=
  directory.join ⟨"/".intercalate names⟩

theorem fields_intercalate {names : Location} (nonempty : names ≠ [])
    (plain : ∀ name ∈ names, '/' ∉ name.toList) :
    fields (· = '/') ("/".intercalate names).toList = names.map String.toList := by
  induction names with
  | nil => exact (nonempty rfl).elim
  | cons name rest induction =>
      obtain ⟨here, others⟩ := List.forall_mem_cons.mp plain
      have single : fields (· = '/') name.toList = [name.toList] :=
        fields_eq_singleton _ _ fun character member =>
          decide_eq_false fun equality => here (equality ▸ member)
      cases rest with
      | nil => simpa using single
      | cons next more =>
          rw [String.intercalate_cons_cons, String.toList_append, String.toList_append,
            List.append_assoc]
          rw [show "/".toList ++ ("/".intercalate (next :: more)).toList =
              '/' :: ("/".intercalate (next :: more)).toList from rfl,
            fields_append_separator (· = '/') _ _ (by decide), single, induction (by simp) others]
          rfl

/-- A path that is not empty has the pieces of its directory first, where an empty piece at its
end does not count. -/
structure PiecesBelow (directory : Path) (names : Location) (base : List (List Char)) : Prop where
  outer : directory.pieces = base ∨ directory.pieces = base ++ [[]]
  nonempty : base ≠ []
  inner : (directory.below names).pieces = base ++ names.map String.toList
  absolute : (directory.below names).isAbsolute = directory.isAbsolute

theorem head?_intercalate {name : String} {rest : Location} (nonempty : name ≠ "") :
    ("/".intercalate (name :: rest)).toList.head? = name.toList.head? := by
  have letters : name.toList ≠ [] := fun nothing => nonempty (String.toList_inj.mp nothing)
  obtain ⟨first, others, shape⟩ := List.exists_cons_of_ne_nil letters
  cases rest with
  | nil => simp [shape]
  | cons next more => simp [String.intercalate_cons_cons, shape]

theorem piecesBelow {directory : Path} {names : Location} (named : directory.text ≠ "")
    (nonempty : names ≠ []) (plain : ∀ name ∈ names, '/' ∉ name.toList)
    (notEmpty : "" ∉ names) : ∃ base, PiecesBelow directory names base := by
  have letters : directory.text.toList ≠ [] := fun nothing => named (String.toList_inj.mp nothing)
  have relative : (⟨"/".intercalate names⟩ : Path).isAbsolute = false := by
    obtain ⟨name, rest, rfl⟩ := List.exists_cons_of_ne_nil nonempty
    have someName : name ≠ "" := by
      rintro rfl
      exact notEmpty List.mem_cons_self
    rw [isAbsolute, head?_intercalate someName, decide_eq_false_iff_not]
    intro head
    exact plain name List.mem_cons_self (List.mem_of_head? head)
  have inner := fields_intercalate nonempty plain
  have emptyText : directory.text.isEmpty = false := by
    rw [← Bool.not_eq_true, String.isEmpty_iff]
    exact named
  obtain ⟨first, others, headShape⟩ := List.exists_cons_of_ne_nil letters
  by_cases slash : directory.text.toList.getLast? = some '/'
  · obtain ⟨front, shape⟩ := List.getLast?_eq_some_iff.mp slash
    have joined : directory.below names = ⟨directory.text ++ "/".intercalate names⟩ := by
      simp [below, join, relative, slash]
    refine ⟨fields (· = '/') front, Or.inr ?_, fields_ne_nil _ _, ?_, ?_⟩
    · rw [pieces, shape, fields_append_separator (· = '/') front [] (by decide)]
      rfl
    · rw [joined, pieces, String.toList_append, shape, List.append_assoc, List.singleton_append,
        fields_append_separator (· = '/') front _ (by decide), inner]
    · simp [joined, isAbsolute, headShape]
  · have joined : directory.below names =
        ⟨directory.text ++ "/" ++ "/".intercalate names⟩ := by
      simp [below, join, relative, slash, emptyText]
    refine ⟨fields (· = '/') directory.text.toList, Or.inl rfl, fields_ne_nil _ _, ?_, ?_⟩
    · rw [joined, pieces, String.toList_append, String.toList_append, List.append_assoc,
        show "/".toList ++ ("/".intercalate names).toList =
          '/' :: ("/".intercalate names).toList from rfl,
        fields_append_separator (· = '/') _ _ (by decide), inner]
    · simp [joined, isAbsolute, headShape]

/-- The components of a path below a directory are those of the directory and then the names on the
way that lead somewhere. -/
theorem components_below_of_plain {directory : Path} {names : Location}
    (named : directory.text ≠ "") (nonempty : names ≠ [])
    (plain : ∀ name ∈ names, '/' ∉ name.toList) (notEmpty : "" ∉ names) :
    (directory.below names).components =
      directory.components ++ names.filter (!isIdle ·.toList) := by
  obtain ⟨base, parts⟩ := piecesBelow named nonempty plain notEmpty
  obtain ⟨first, rest, rfl⟩ := List.exists_cons_of_ne_nil parts.nonempty
  have kept : ((names.map String.toList).filter (!isIdle ·)).map String.ofList =
      names.filter (!isIdle ·.toList) := by
    rw [List.filter_map, List.map_map]
    simp [Function.comp_def]
  have inner : (directory.below names).pieces = first :: (rest ++ names.map String.toList) :=
    parts.inner
  have components : directory.components =
      (if directory.isAbsolute then ["/"] else if first.isEmpty then [] else
        [String.ofList first]) ++ (rest.filter (!isIdle ·)).map String.ofList := by
    rcases parts.outer with outer | outer
    · simp only [Path.components, outer]
    · simp only [Path.components, outer, List.cons_append, List.filter_append,
        show [([] : List Char)].filter (!isIdle ·) = [] from rfl, List.append_nil]
  rw [components]
  simp only [Path.components, inner, parts.absolute, List.filter_append, List.map_append, kept,
    List.append_assoc]

section

variable {directory : Path} {names : Location} (named : directory.text ≠ "")
  (nonempty : names ≠ []) (areNames : ∀ name ∈ names, FileTree.IsEntryName name)

include named nonempty areNames

theorem piecesBelow_of_names : ∃ base, PiecesBelow directory names base :=
  piecesBelow named nonempty (fun name member => (areNames name member).oneName)
    fun empty => (areNames "" empty).isNamePiece.ne_nil rfl

@[simp] theorem components_below :
    (directory.below names).components = directory.components ++ names := by
  rw [components_below_of_plain named nonempty (fun name member => (areNames name member).oneName)
    fun empty => (areNames "" empty).isNamePiece.ne_nil rfl, List.filter_eq_self.mpr]
  intro name member
  simpa [isIdle] using (areNames name member).isNamePiece.notIdle

@[simp] theorem relativeTo?_below :
    (directory.below names).relativeTo? directory = some ⟨"/".intercalate names⟩ := by
  have components := components_below named nonempty areNames
  have isPrefix : directory.components.isPrefixOf (directory.below names).components = true :=
    List.isPrefixOf_iff_prefix.mpr ⟨names, components.symm⟩
  rw [relativeTo?, if_pos isPrefix, components, List.drop_left]

end

end Path

namespace FileTree

open ScriptRegistrar.Path

/-- The path of an entry below a directory states its location. -/
theorem statedLocation_below (tree : FileTree) {directory : Path} {names : Location}
    (named : directory.text ≠ "") (nonempty : names ≠ [])
    (areNames : ∀ name ∈ names, IsEntryName name) :
    tree.statedLocation (directory.below names) = tree.statedLocation directory ++ names := by
  obtain ⟨base, parts⟩ := piecesBelow_of_names named nonempty areNames
  have outer : tree.statedLocation directory = statedFrom (tree.origin directory) base := by
    change statedFrom (tree.origin directory) directory.pieces = _
    rcases parts.outer with same | slash
    · rw [same]
    · rw [slash, statedFrom_append]
      rfl
  have inner : tree.statedLocation (directory.below names) =
      statedFrom (tree.origin directory) (base ++ names.map String.toList) := by
    change statedFrom (tree.origin (directory.below names)) (directory.below names).pieces = _
    rw [parts.inner, origin, parts.absolute, origin]
  rw [outer, inner, statedFrom_append, statedFrom_names]
  · simp [Function.comp_def]
  · intro piece member
    obtain ⟨name, listed, rfl⟩ := List.mem_map.mp member
    exact (areNames name listed).isNamePiece

end FileTree

end ScriptRegistrar
