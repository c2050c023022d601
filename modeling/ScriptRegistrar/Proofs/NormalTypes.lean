import Mathlib.Data.Set.Operations
import ScriptRegistrar.Proofs.TypeJoints

/-!
# The texts that are normal forms

What a normal form looks like can be said without computing one.  It has no reference and no
pointer signs, every `const` in it is a part of a longer word, and it has no blanks but single
spaces between characters that a space may stand between.  Every such text is its own normal form,
so these texts are exactly the normal forms there are.
-/

namespace ScriptRegistrar.TypeText

open Text

/-- Whether every `const` of a text touches an identifier character. -/
def HidesQualifier (text : List Char) : Prop :=
  ∀ before behind, text = before ++ (qualifier ++ behind) →
    before.getLast?.any isIdentifierChar = true ∨ behind.head?.any isIdentifierChar = true

/-- Whether every blank of a text is a space between two loose characters.  `last` is the character
in front of the text. -/
def IsSpaced (last : Option Char) (text : List Char) : Prop :=
  ∀ before blank behind, text = before ++ blank :: behind → isBlank blank = true →
    blank = ' ' ∧ (before.getLast?.or last).any isLoose = true ∧ behind.head?.any isLoose = true

/-- Whether a text has the shape of a normal form. -/
structure IsNormal (text : List Char) : Prop where
  unsigned : '&' ∉ text ∧ '*' ∉ text
  unqualified : HidesQualifier text
  trimmed : IsTrimmed text
  spaced : IsSpaced none text

theorem not_isUnqualified_qualifier : ¬ IsUnqualified qualifier := fun free =>
  (isUnqualified_iff_of_letters (List.all_eq_true.mp (by decide))).mp free rfl

/-- Parts that no letter joins to what stands between them leave it as free as the whole. -/
theorem isUnqualified_between {before text behind : List Char}
    (free : IsUnqualified (before ++ (text ++ behind)))
    (starts : before.getLast?.any isIdentifierChar = false)
    (ends : behind.head?.any isIdentifierChar = false) : IsUnqualified text := by
  have front : IsUnqualified (text ++ behind) := by
    rcases List.eq_nil_or_concat before with rfl | ⟨rest, separator, rfl⟩
    · exact free
    · have separates : isIdentifierChar separator = false := by simpa using starts
      rw [List.concat_eq_append, List.append_assoc, List.singleton_append,
        isUnqualified_append_cons separates] at free
      exact free.2
  cases behind with
  | nil => simpa using front
  | cons separator rest =>
      have separates : isIdentifierChar separator = false := by simpa using ends
      exact ((isUnqualified_append_cons separates).mp front).1

theorem HidesQualifier.behind {left right : List Char} {separator : Char}
    (hides : HidesQualifier (left ++ separator :: right))
    (separates : isIdentifierChar separator = false) : HidesQualifier right := by
  rintro before behind rfl
  have touches := hides (left ++ separator :: before) behind (by simp)
  cases before with
  | nil => simpa [separates] using touches
  | cons first rest =>
      rwa [List.getLast?_append, List.getLast?_cons_cons,
        Option.or_of_isSome (List.getLast?_isSome.mpr (by simp))] at touches

theorem isUnqualified_iff (text : List Char) : IsUnqualified text ↔ HidesQualifier text := by
  constructor
  · rintro free before behind rfl
    by_contra apart
    rw [not_or, Bool.not_eq_true, Bool.not_eq_true] at apart
    exact not_isUnqualified_qualifier (isUnqualified_between free apart.1 apart.2)
  · intro hides
    generalize length : text.length = bound
    induction bound using Nat.strongRecOn generalizing text with
    | ind bound induction =>
        obtain ⟨word, rest, rfl, ends, letters⟩ := exists_first_word text
        have free : IsUnqualified word := by
          rw [isUnqualified_iff_of_letters letters]
          rintro rfl
          have touches := hides [] rest rfl
          simp [ends] at touches
        cases rest with
        | nil => simpa using free
        | cons separator later =>
            have separates : isIdentifierChar separator = false := by simpa using ends
            rw [isUnqualified_append_cons separates]
            refine ⟨free, induction later.length ?_ later (hides.behind separates) rfl⟩
            rw [← length, List.length_append, List.length_cons]
            omega

theorem isSpaced_nil (last : Option Char) : IsSpaced last [] := by
  intro before blank behind shape
  simp at shape

theorem getLast?_cons_or (next : Char) (text : List Char) (last : Option Char) :
    (next :: text).getLast?.or last = text.getLast?.or (some next) := by
  cases text with
  | nil => rfl
  | cons first rest => simp [List.getLast?_cons]

theorem IsSpaced.behind {last : Option Char} {next : Char} {rest : List Char}
    (spaced : IsSpaced last (next :: rest)) : IsSpaced (some next) rest := by
  rintro before blank behind rfl isBlank
  have whole := spaced (next :: before) blank behind rfl isBlank
  rwa [getLast?_cons_or] at whole

/-- A character that is no blank may be put in front, if what follows is spaced behind it. -/
theorem IsSpaced.cons {last : Option Char} {next : Char} {rest : List Char}
    (solid : isBlank next = false) (spaced : IsSpaced (some next) rest) :
    IsSpaced last (next :: rest) := by
  intro before blank behind shape isBlank
  cases before with
  | nil =>
      cases shape
      rw [solid] at isBlank
      exact Bool.noConfusion isBlank
  | cons first others =>
      cases shape
      rw [getLast?_cons_or]
      exact spaced others blank behind rfl isBlank

theorem isBlank_of_isLoose {character : Char} (loose : isLoose character = true) :
    isBlank character = false := by
  simp only [isLoose, Bool.and_eq_true, Bool.not_eq_true'] at loose
  exact loose.1

theorem IsSpaced.space_cons {last : Option Char} {next : Char} {rest : List Char}
    (leftLoose : last.any isLoose = true) (rightLoose : isLoose next = true)
    (spaced : IsSpaced (some next) rest) : IsSpaced last (' ' :: next :: rest) := by
  intro before blank behind shape isBlank
  cases before with
  | nil =>
      cases shape
      exact ⟨rfl, leftLoose, rightLoose⟩
  | cons first others =>
      obtain ⟨rfl, further⟩ := List.cons.inj shape
      rw [getLast?_cons_or]
      exact spaced.cons (isBlank_of_isLoose rightLoose) others blank behind further isBlank

theorem keepsBlank_eq {last : Option Char} {next : Char}
    (lastSolid : last.any isBlank = false) (solid : isBlank next = false) :
    keepsBlank last next = (last.any isLoose && isLoose next) := by
  cases last with
  | none => rfl
  | some character =>
      have characterSolid : isBlank character = false := lastSolid
      simp [keepsBlank, isLoose, characterSolid, solid]

theorem isSpaced_tighten {last : Option Char} (lastSolid : last.any isBlank = false)
    (blankSeen : Bool) (text : List Char) : IsSpaced last (tighten last blankSeen text) := by
  induction text generalizing last blankSeen with
  | nil => exact isSpaced_nil last
  | cons next rest induction =>
      rw [tighten]
      split
      · exact induction lastSolid true
      · rename_i notBlank
        have solid : isBlank next = false := by simpa using notBlank
        have further : IsSpaced (some next) (tighten (some next) false rest) :=
          @induction (some next) solid false
        split
        · rename_i keeps
          rw [Bool.and_eq_true, keepsBlank_eq lastSolid solid, Bool.and_eq_true] at keeps
          exact further.space_cons keeps.2.1 keeps.2.2
        · exact further.cons solid

/-- A spaced text has the blanks that `tighten` leaves. -/
theorem tighten_eq_self {last : Option Char} {text : List Char} (spaced : IsSpaced last text) :
    tighten last false text = text := by
  induction text generalizing last with
  | nil => rfl
  | cons next rest induction =>
      have others : tighten (some next) false rest = rest := induction spaced.behind
      rw [tighten]
      split
      · rename_i blank
        obtain ⟨rfl, leftLoose, rightLoose⟩ := spaced [] next rest rfl blank
        cases rest with
        | nil => cases rightLoose
        | cons second later =>
            have solid : isBlank second = false := isBlank_of_isLoose rightLoose
            have lastSolid : last.any isBlank = false := by
              cases last with
              | none => rfl
              | some character => exact isBlank_of_isLoose leftLoose
            have keeps : keepsBlank last second = true := by
              rw [keepsBlank_eq lastSolid solid, Bool.and_eq_true]
              exact ⟨leftLoose, rightLoose⟩
            rw [tighten, if_neg (by simp [solid]), if_neg (by simp), List.cons.injEq] at others
            rw [tighten, if_neg (by simp [solid]), if_pos (by simp [keeps]), others.2]
      · rw [if_neg (by simp), others]

theorem IsSpaced.isTrimmed {text : List Char} (spaced : IsSpaced none text) : IsTrimmed text := by
  constructor
  · cases text with
    | nil => rfl
    | cons next rest =>
        rw [List.head?_cons, Option.any_some]
        by_contra blank
        have neighbours := spaced [] next rest rfl (by simpa using blank)
        exact Bool.noConfusion neighbours.2.1
  · rcases List.eq_nil_or_concat text with rfl | ⟨front, last, rfl⟩
    · rfl
    · rw [List.concat_eq_append, List.getLast?_concat, Option.any_some]
      by_contra blank
      have neighbours := spaced front last [] (by simp) (by simpa using blank)
      exact Bool.noConfusion neighbours.2.2

theorem isNormal_normalForm (text : List Char) : IsNormal (normalForm text) := by
  have spaced : IsSpaced none (normalForm text) := isSpaced_tighten rfl false _
  refine ⟨⟨fun sign => ?_, fun sign => ?_⟩, ?_, spaced.isTrimmed, spaced⟩
  · exact Bool.noConfusion (isReferenceSign_of_mem_normalForm sign)
  · exact Bool.noConfusion (isReferenceSign_of_mem_normalForm sign)
  · exact (isUnqualified_iff _).mp (isUnqualified_normalForm text)

theorem normalForm_eq_self {text : List Char} (normal : IsNormal text) : normalForm text = text := by
  have noSigns : unsigned text = text := by
    refine List.filter_eq_self.mpr fun character member => ?_
    rw [Bool.not_eq_true', Bool.eq_false_iff, Ne, isReferenceSign_iff]
    rintro (rfl | rfl)
    · exact normal.unsigned.1 member
    · exact normal.unsigned.2 member
  have noQualifier : dropQualifier [] text = text :=
    dropQualifier_eq_self (by simp) ((isUnqualified_iff text).mpr normal.unqualified)
  rw [normalForm_eq, noSigns, noQualifier, tighten_eq_self normal.spaced]

@[simp] theorem normalForm_normalForm (text : List Char) :
    normalForm (normalForm text) = normalForm text :=
  normalForm_eq_self (isNormal_normalForm text)

/-- Types in normal form are the texts of the shape `IsNormal`: every normal form has it, and what
has it is its own normal form. -/
theorem range_normalize :
    (∀ text : String, IsNormal (normalize text).toList) ∧
    (∀ text : String, normalize text = text ↔ IsNormal text.toList) ∧
    (∀ text : String, normalize (normalize text) = normalize text) ∧
    Set.range normalize = {text | IsNormal text.toList} := by
  have shape : ∀ text : String, IsNormal (normalize text).toList := by
    intro text
    rw [normalize, String.toList_ofList]
    exact isNormal_normalForm text.toList
  have fixed : ∀ text : String, normalize text = text ↔ IsNormal text.toList := by
    intro text
    refine ⟨fun same => same ▸ shape text, fun normal => ?_⟩
    rw [normalize, normalForm_eq_self normal, String.ofList_toList]
  refine ⟨shape, fixed, fun text => (fixed _).mpr (shape text), Set.ext fun text => ?_⟩
  constructor
  · rintro ⟨raw, rfl⟩
    exact shape raw
  · exact fun normal => ⟨text, (fixed text).mpr normal⟩

end ScriptRegistrar.TypeText
