import ScriptRegistrar.Proofs.ConstructorPlaces

/-!
# Heads in a wider text

Whether the head of a constructor starts at a place is decided by the text up to the next brace
and by the character in front.  So a head that is found in one text is found in every other that
has these in common with it.
-/

namespace ScriptRegistrar

open Text Text.Cursor

namespace Text.Cursor

/-- A place in a wider text. -/
def within (before behind : List Char) (cursor : Cursor) : Cursor :=
  ⟨cursor.passed ++ before, cursor.ahead ++ behind⟩

variable {stop : Char} {before rest : List Char}

theorem isPrefixOf_append_stop {expected : List Char} (absent : stop ∉ expected)
    (ahead : List Char) :
    expected.isPrefixOf (ahead ++ stop :: rest) = expected.isPrefixOf ahead := by
  induction expected generalizing ahead with
  | nil => rfl
  | cons next others induction =>
      rw [List.mem_cons, not_or] at absent
      cases ahead with
      | nil => simp [List.isPrefixOf, Ne.symm absent.1]
      | cons first later => simp only [List.cons_append, List.isPrefixOf, induction absent.2]

theorem literal?_within {expected : List Char} (absent : stop ∉ expected) (cursor : Cursor) :
    (cursor.within before (stop :: rest)).literal? expected =
      (cursor.literal? expected).map (within before (stop :: rest)) := by
  simp only [literal?, within, isPrefixOf_append_stop absent]
  split
  · rename_i comesNext
    obtain ⟨others, shape⟩ := List.isPrefixOf_iff_prefix.mp comesNext
    simp [within, ← shape]
  · rfl

theorem sign?_within {expected : String} (absent : stop ∉ expected.toList) (cursor : Cursor) :
    (cursor.within before (stop :: rest)).sign? expected =
      (cursor.sign? expected).map (within before (stop :: rest)) :=
  literal?_within absent cursor

theorem passWhile_within {test : Char → Bool} (stops : test stop = false) (cursor : Cursor) :
    (cursor.within before (stop :: rest)).passWhile test =
      (cursor.passWhile test).within before (stop :: rest) := by
  have shape := List.takeWhile_append_dropWhile (p := test) (l := cursor.ahead)
  have passes : ∀ character ∈ cursor.ahead.takeWhile test, test character = true :=
    fun _ member => List.all_eq_true.mp List.all_takeWhile _ member
  have ends : (cursor.ahead.dropWhile test ++ stop :: rest).head?.any test = false := by
    cases behind : cursor.ahead.dropWhile test with
    | nil => simpa using stops
    | cons next others =>
        have fails := List.head_dropWhile_not test (by rw [behind]; exact List.cons_ne_nil _ _)
        simpa [behind] using fails
  have passed := @passWhile_append (cursor.passed ++ before) _ _ test passes ends
  rw [← List.append_assoc, shape] at passed
  rw [within, passed, within, passWhile]
  simp

theorem passBlanks_within (stops : isBlank stop = false) (cursor : Cursor) :
    (cursor.within before (stop :: rest)).passBlanks =
      cursor.passBlanks.within before (stop :: rest) :=
  passWhile_within stops cursor

end Text.Cursor

namespace Constructor

/-- Reads the head of a constructor up to its brace, wherever it starts. -/
def readFront? (className : List Char) (cursor : Cursor) : Option Cursor := do
  let name ← cursor.literal? className
  let inside ← name.passBlanks.sign? "("
  let behind ← inside.passBlanks.sign? ")"
  some (passException behind.passBlanks)

variable {className otherName before rest : List Char}

theorem readHead?_eq_readFront? (className : List Char) (cursor : Cursor) :
    readHead? className cursor =
      if cursor.isBoundary then
        (readFront? className cursor).bind fun front =>
          (front.sign? "\x7b").bind fun opened => some ((cursor, opened), opened)
      else none := by
  cases boundary : cursor.isBoundary with
  | false => simp [readHead?, boundary]
  | true =>
      simp only [readHead?, readFront?, boundary, guard, if_true, Option.bind_eq_bind,
        Option.pure_def, Option.bind_some, Option.bind_assoc]

private theorem noBlank : isBlank '\x7b' = false := by decide

private theorem noWord : isWord '\x7b' = false := by decide

theorem passException_within (cursor : Cursor) :
    passException (cursor.within before ('\x7b' :: rest)) =
      (passException cursor).within before ('\x7b' :: rest) := by
  rw [passException, passException, sign?_within (by decide)]
  cases cursor.sign? "noexcept" with
  | none => rfl
  | some behind =>
      simp only [Option.map_some, Option.bind_eq_bind, passBlanks_within noBlank,
        sign?_within (show '\x7b' ∉ "(".toList by decide), passWhile_within noWord,
        sign?_within (show '\x7b' ∉ ")".toList by decide), Option.bind_map, Function.comp_def]
      refine Eq.trans ?_ (Option.getD_map (within before ('\x7b' :: rest)) _ _)
      simp only [Option.map_bind, Function.comp_def, Option.map_some]

theorem readFront?_within (isWordText : IsWordText className) (cursor : Cursor) :
    readFront? className (cursor.within before ('\x7b' :: rest)) =
      (readFront? className cursor).map (within before ('\x7b' :: rest)) := by
  have noBrace : '\x7b' ∉ className := not_mem_of_test isWordText.2 (by decide)
  simp only [readFront?, Option.bind_eq_bind, literal?_within noBrace, passBlanks_within noBlank,
    sign?_within (show '\x7b' ∉ "(".toList by decide),
    sign?_within (show '\x7b' ∉ ")".toList by decide), passException_within, Option.bind_map,
    Option.map_bind, Function.comp_def, Option.map_some]

/-- Whether a head starts at a place is decided by the text up to a brace. -/
theorem isSome_readHead?_congr (isWordText : IsWordText className)
    {passed otherPassed stretch further : List Char}
    (sameBoundary : (Cursor.mk otherPassed (stretch ++ '\x7b' :: further)).isBoundary =
      (Cursor.mk passed (stretch ++ '\x7b' :: rest)).isBoundary) :
    (readHead? className ⟨otherPassed, stretch ++ '\x7b' :: further⟩).isSome =
      (readHead? className ⟨passed, stretch ++ '\x7b' :: rest⟩).isSome := by
  have decided : ∀ passed rest : List Char,
      ((readFront? className ⟨passed, stretch ++ '\x7b' :: rest⟩).bind fun front =>
        (front.sign? "\x7b").bind fun opened =>
          some ((Cursor.mk passed (stretch ++ '\x7b' :: rest), opened), opened)).isSome =
      (readFront? className ⟨[], stretch⟩).any fun front => front.ahead.head?.all (· = '\x7b') := by
    intro passed rest
    have wider : Cursor.mk passed (stretch ++ '\x7b' :: rest) =
        (Cursor.mk [] stretch).within passed ('\x7b' :: rest) := rfl
    rw [wider, readFront?_within isWordText]
    cases readFront? className ⟨[], stretch⟩ with
    | none => rfl
    | some front =>
        obtain ⟨_, ahead⟩ := front
        cases ahead with
        | nil => simp [within, sign?, literal?]
        | cons next others =>
            by_cases brace : next = '\x7b'
            · simp [within, sign?, literal?, brace]
            · simp [within, sign?, literal?, brace, Ne.symm brace]
  rw [readHead?_eq_readFront?, readHead?_eq_readFront?, sameBoundary]
  split
  · rw [decided, decided]
  · rfl

end Constructor

end ScriptRegistrar
