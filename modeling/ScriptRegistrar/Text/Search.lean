import ScriptRegistrar.Text.Cursor

/-!
# Searching a text

A recogniser reads one construct that starts at a cursor and returns the place behind it.
`first?` tries the places of a text from left to right, and `occurrences` goes on behind each
construct found, so what it lists never overlaps.  The rest are searches that need no place:
whether a text occurs in another, its lines, and its words.
-/

namespace ScriptRegistrar.Text

/-- Reads one construct that starts at a cursor, and says where it ends. -/
abbrev Recogniser (α : Type) := Cursor → Option (α × Cursor)

namespace Recogniser

/-- The first result of `read` at the places from here on, given as `passed` and the text ahead. -/
def firstFrom? (read : Cursor → Option α) (passed : List Char) : List Char → Option α
  | [] => read ⟨passed, []⟩
  | next :: rest =>
    match read ⟨passed, next :: rest⟩ with
    | some found => some found
    | none => firstFrom? read (next :: passed) rest

/-- The construct that starts first at or behind a cursor. -/
def first? (read : Cursor → Option α) (cursor : Cursor) : Option α :=
  firstFrom? read cursor.passed cursor.ahead

/-- The constructs at or behind a cursor, each looked for behind the end of the one before. -/
def occurrences (read : Recogniser α) (cursor : Cursor) : List α :=
  match first? read cursor with
  | none => []
  | some (found, next) =>
    if next.ahead.length < cursor.ahead.length then found :: occurrences read next else [found]
termination_by cursor.ahead.length

end Recogniser

def contains (part : List Char) : List Char → Bool
  | [] => part.isEmpty
  | next :: rest => part.isPrefixOf (next :: rest) || contains part rest

/-- The pieces of a text between the characters that satisfy `separates`. -/
def fields (separates : Char → Bool) : List Char → List (List Char)
  | [] => [[]]
  | next :: rest =>
    if separates next then [] :: fields separates rest
    else
      match fields separates rest with
      | [] => [[next]]
      | field :: others => (next :: field) :: others

/-- The lines of a text, without their line feeds. -/
def lines (text : List Char) : List (List Char) :=
  fields (· = '\n') text

/-- The pieces of a text between blanks, none of them empty. -/
def words (text : List Char) : List (List Char) :=
  (fields isBlank text).filter (!·.isEmpty)

/-- The members of a list whose key no earlier member has. -/
def keepFirst [DecidableEq β] (key : α → β) : List α → List α
  | [] => []
  | member :: rest => member :: (keepFirst key rest).filter (key · ≠ key member)

/-- A text occurs in another exactly if it stands between two parts of it. -/
theorem contains_iff (part text : List Char) :
    contains part text = true ↔ ∃ before behind, text = before ++ part ++ behind := by
  induction text with
  | nil =>
      constructor
      · intro empty
        exact ⟨[], [], by simpa [contains] using empty⟩
      · rintro ⟨before, behind, equality⟩
        have empty : part = [] := by
          have nothing := equality.symm
          simp only [List.append_eq_nil_iff] at nothing
          exact nothing.1.2
        simp [contains, empty]
  | cons next rest induction =>
      simp only [contains, Bool.or_eq_true, induction, List.isPrefixOf_iff_prefix]
      constructor
      · rintro (⟨behind, equality⟩ | ⟨before, behind, equality⟩)
        · exact ⟨[], behind, by simp [← equality]⟩
        · exact ⟨next :: before, behind, by simp [equality]⟩
      · rintro ⟨before, behind, equality⟩
        cases before with
        | nil => exact Or.inl ⟨behind, by simpa using equality.symm⟩
        | cons head before =>
            simp only [List.cons_append, List.cons.injEq] at equality
            exact Or.inr ⟨before, behind, by simpa using equality.2⟩

theorem fields_ne_nil (separates : Char → Bool) (text : List Char) :
    fields separates text ≠ [] := by
  cases text with
  | nil => simp [fields]
  | cons next rest =>
      simp only [fields]
      split
      · simp
      · split <;> simp

theorem keepFirst_pairwise [DecidableEq β] (key : α → β) (members : List α) :
    (keepFirst key members).Pairwise (key · ≠ key ·) := by
  induction members with
  | nil => exact .nil
  | cons member rest induction =>
      refine .cons ?_ (induction.filter _)
      intro other kept
      have different := (List.mem_filter.mp kept).2
      exact fun equality => by simp [equality] at different

end ScriptRegistrar.Text
