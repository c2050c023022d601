/-!
# Bracketed text

Behind an opening bracket, the text up to the bracket that closes it: closing brackets are
counted against the opening ones of the same kind, and all other characters are passed over.
Comments and string literals get no special treatment.
-/

namespace ScriptRegistrar.Bracketed

/-- Splits a text that stands behind an opening bracket, with `depth` more of them open, at the
bracket that closes the first one: the text up to it and the text behind it.  `none` if the text
ends first. -/
def close? (opening closing : Char) (depth : Nat) : List Char → Option (List Char × List Char)
  | [] => none
  | next :: rest =>
    if next = opening then keep next (close? opening closing (depth + 1) rest)
    else if next = closing then
      match depth with
      | 0 => some ([], rest)
      | depth + 1 => keep next (close? opening closing depth rest)
    else keep next (close? opening closing depth rest)
where
  /-- Puts a character in front of the inner text. -/
  keep (next : Char) : Option (List Char × List Char) → Option (List Char × List Char)
    | none => none
    | some (inside, behind) => some (next :: inside, behind)

def braces? (text : List Char) : Option (List Char × List Char) :=
  close? '\x7b' '\x7d' 0 text

def parentheses? (text : List Char) : Option (List Char × List Char) :=
  close? '(' ')' 0 text

/-- Nothing but the closing bracket is lost. -/
theorem append_of_close? {opening closing : Char} {depth : Nat}
    {text inside behind : List Char}
    (closed : close? opening closing depth text = some (inside, behind)) :
    text = inside ++ closing :: behind := by
  induction text generalizing depth inside with
  | nil => cases closed
  | cons next rest induction =>
      have kept : ∀ {deeper : Nat},
          close?.keep next (close? opening closing deeper rest) = some (inside, behind) →
            next :: rest = inside ++ closing :: behind := by
        intro deeper equality
        cases result : close? opening closing deeper rest with
        | none => simp [result, close?.keep] at equality
        | some parts =>
            simp only [result, close?.keep, Option.some.injEq, Prod.mk.injEq] at equality
            obtain ⟨rfl, rfl⟩ := equality
            rw [induction result, List.cons_append]
      simp only [close?] at closed
      split at closed
      · exact kept closed
      · split at closed
        · rename_i isClosing
          split at closed
          · cases closed
            simp [isClosing]
          · exact kept closed
        · exact kept closed

end ScriptRegistrar.Bracketed
