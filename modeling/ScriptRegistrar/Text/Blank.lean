/-!
# Blank characters

A blank is a character of the Unicode property `White_Space`.  Trimming removes blanks from the
ends of a text and nothing else.  Texts are lists of characters here, so that every scan of the
library is a recursion over its input.
-/

namespace ScriptRegistrar.Text

/-- The characters of the Unicode property `White_Space`. -/
def isBlank (character : Char) : Bool :=
  let codePoint := character.toNat
  (9 ≤ codePoint && codePoint ≤ 13) || codePoint = 0x20 || codePoint = 0x85 ||
    codePoint = 0xA0 || codePoint = 0x1680 || (0x2000 ≤ codePoint && codePoint ≤ 0x200A) ||
    codePoint = 0x2028 || codePoint = 0x2029 || codePoint = 0x202F || codePoint = 0x205F ||
    codePoint = 0x3000

def trimStart (text : List Char) : List Char :=
  text.dropWhile isBlank

/-- Drops the characters a text ends with as long as they satisfy `drop`. -/
def dropEndWhile (drop : Char → Bool) : List Char → List Char
  | [] => []
  | character :: rest =>
    match dropEndWhile drop rest with
    | [] => if drop character then [] else [character]
    | kept => character :: kept

def trimEnd (text : List Char) : List Char :=
  dropEndWhile isBlank text

def trim (text : List Char) : List Char :=
  trimEnd (trimStart text)

/-- A text without the blanks at its ends. -/
def trimmed (text : String) : String :=
  String.ofList (trim text.toList)

@[simp] theorem head?_any_dropWhile (test : Char → Bool) (text : List Char) :
    (text.dropWhile test).head?.any test = false := by
  have stops := List.head?_dropWhile_not test text
  cases first : (text.dropWhile test).head? with
  | none => rfl
  | some character => simpa [first] using stops

theorem dropEndWhile_eq_nil_iff (drop : Char → Bool) (text : List Char) :
    dropEndWhile drop text = [] ↔ ∀ character ∈ text, drop character = true := by
  induction text with
  | nil => simp [dropEndWhile]
  | cons character rest induction =>
      simp only [dropEndWhile, List.mem_cons, forall_eq_or_imp]
      rw [← induction]
      cases dropEndWhile drop rest <;> simp

/-- Trimming the end keeps a first part of the text and drops the rest. -/
theorem dropEndWhile_append (drop : Char → Bool) (text : List Char) :
    ∃ dropped, text = dropEndWhile drop text ++ dropped ∧
      ∀ character ∈ dropped, drop character = true := by
  induction text with
  | nil => exact ⟨[], rfl, by simp⟩
  | cons character rest induction =>
      obtain ⟨dropped, equality, blank⟩ := induction
      simp only [dropEndWhile]
      split
      · rename_i empty
        rw [empty] at equality
        split
        · rename_i dropIt
          refine ⟨character :: rest, rfl, ?_⟩
          rw [equality]
          simpa [dropIt] using blank
        · exact ⟨dropped, by simp [equality], blank⟩
      · exact ⟨dropped, by rw [List.cons_append, ← equality], blank⟩

end ScriptRegistrar.Text
