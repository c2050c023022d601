import ScriptRegistrar.Proofs.Text.CharacterClasses
import ScriptRegistrar.TypeText

/-!
# Normal forms of types

A normal form has no reference and no pointer signs, because none is written once they are left
out.  No run of identifier characters in it is the qualifier, because every such run is replaced by
a blank and the blanks that are left out afterwards stand beside signs that belong to no run.
-/

namespace ScriptRegistrar.TypeText

open Text

theorem isReferenceSign_iff {character : Char} :
    isReferenceSign character = true ↔ character = '&' ∨ character = '*' := by
  simp [isReferenceSign]

theorem isReferenceSign_of_isIdentifierChar {character : Char}
    (identifier : isIdentifierChar character = true) : isReferenceSign character = false := by
  cases sign : isReferenceSign character with
  | false => rfl
  | true =>
      rcases isReferenceSign_iff.mp sign with rfl | rfl <;> exact Bool.noConfusion identifier

theorem isTight_of_isIdentifierChar {character : Char}
    (identifier : isIdentifierChar character = true) : isTight character = false := by
  cases tight : isTight character with
  | false => rfl
  | true =>
      simp only [isTight, Bool.or_eq_true, decide_eq_true_eq] at tight
      rcases tight with ((((((rfl | rfl) | rfl) | rfl) | rfl) | rfl) | rfl) | rfl <;>
        exact Bool.noConfusion identifier

/-- Whether no run of identifier characters in a text is the qualifier. -/
def IsUnqualified (text : List Char) : Prop :=
  qualifier ∉ fields (!isIdentifierChar ·) text

theorem isUnqualified_nil : IsUnqualified [] := by
  simp [IsUnqualified, fields, qualifier]

theorem isUnqualified_append_cons {left right : List Char} {separator : Char}
    (separates : isIdentifierChar separator = false) :
    IsUnqualified (left ++ separator :: right) ↔ IsUnqualified left ∧ IsUnqualified right := by
  rw [IsUnqualified, fields_append_separator _ left right (by simp [separates]), List.mem_append,
    not_or]
  rfl

theorem isUnqualified_cons {rest : List Char} {separator : Char}
    (separates : isIdentifierChar separator = false) :
    IsUnqualified (separator :: rest) ↔ IsUnqualified rest := by
  rw [← List.nil_append (separator :: rest), isUnqualified_append_cons separates]
  exact and_iff_right isUnqualified_nil

theorem isUnqualified_iff_of_letters {run : List Char}
    (letters : ∀ character ∈ run, isIdentifierChar character = true) :
    IsUnqualified run ↔ run ≠ qualifier := by
  rw [IsUnqualified, fields_eq_singleton _ run fun character member => by simp [letters character
    member], List.mem_singleton]
  exact ne_comm

section

variable {run : List Char} (letters : ∀ character ∈ run, isIdentifierChar character = true)

include letters

theorem letters_reverse : ∀ character ∈ run.reverse, isIdentifierChar character = true :=
  fun character member => letters character (List.mem_reverse.mp member)

theorem isUnqualified_closeRun : IsUnqualified (closeRun run) := by
  unfold closeRun
  split
  · exact (isUnqualified_cons (by decide)).mpr isUnqualified_nil
  · rename_i different
    exact (isUnqualified_iff_of_letters (letters_reverse letters)).mpr different

theorem isUnqualified_dropQualifier (text : List Char) : IsUnqualified (dropQualifier run text) := by
  induction text generalizing run with
  | nil => exact isUnqualified_closeRun letters
  | cons next rest induction =>
      rw [dropQualifier]
      split
      · rename_i letter
        exact induction (List.forall_mem_cons.mpr ⟨letter, letters⟩)
      · rename_i separates
        rw [isUnqualified_append_cons (by simpa using separates)]
        exact ⟨isUnqualified_closeRun letters, induction (by simp)⟩

theorem closeRun_eq_reverse (free : IsUnqualified run.reverse) : closeRun run = run.reverse :=
  if_neg ((isUnqualified_iff_of_letters (letters_reverse letters)).mp free)

/-- Where no run is the qualifier there is nothing to drop. -/
theorem dropQualifier_eq_self {text : List Char} (free : IsUnqualified (run.reverse ++ text)) :
    dropQualifier run text = run.reverse ++ text := by
  induction text generalizing run with
  | nil => rw [dropQualifier, closeRun_eq_reverse letters (by simpa using free), List.append_nil]
  | cons next rest induction =>
      rw [dropQualifier]
      split
      · rename_i letter
        rw [induction (List.forall_mem_cons.mpr ⟨letter, letters⟩) (by simpa using free)]
        simp
      · rename_i separates
        rw [isUnqualified_append_cons (by simpa using separates)] at free
        have others : dropQualifier [] rest = rest := induction (by simp) free.2
        rw [closeRun_eq_reverse letters free.1, others]

end

theorem mem_dropQualifier {run text : List Char} {character : Char}
    (member : character ∈ dropQualifier run text) :
    character ∈ run ∨ character ∈ text ∨ character = ' ' := by
  have ofRun : ∀ {run : List Char}, character ∈ closeRun run →
      character ∈ run ∨ character = ' ' := by
    intro run member
    unfold closeRun at member
    split at member
    · exact Or.inr (List.mem_singleton.mp member)
    · exact Or.inl (List.mem_reverse.mp member)
  induction text generalizing run with
  | nil =>
      rcases ofRun member with inRun | space
      · exact Or.inl inRun
      · exact Or.inr (Or.inr space)
  | cons next rest induction =>
      rw [dropQualifier] at member
      split at member
      · rcases induction member with inRun | inRest | space
        · rcases List.mem_cons.mp inRun with rfl | before
          · exact Or.inr (Or.inl List.mem_cons_self)
          · exact Or.inl before
        · exact Or.inr (Or.inl (List.mem_cons_of_mem _ inRest))
        · exact Or.inr (Or.inr space)
      · rcases List.mem_append.mp member with inRun | behind
        · rcases ofRun inRun with inRun | space
          · exact Or.inl inRun
          · exact Or.inr (Or.inr space)
        · rcases List.mem_cons.mp behind with rfl | later
          · exact Or.inr (Or.inl List.mem_cons_self)
          · rcases induction later with none | inRest | space
            · cases none
            · exact Or.inr (Or.inl (List.mem_cons_of_mem _ inRest))
            · exact Or.inr (Or.inr space)

@[simp] theorem closeRun_nil : closeRun [] = [] := rfl

/-- The qualifier is dropped from two parts by themselves if the second one starts no word. -/
theorem dropQualifier_append_of_head? {right : List Char}
    (apart : right.head?.any isIdentifierChar = false) (run left : List Char) :
    dropQualifier run (left ++ right) = dropQualifier run left ++ dropQualifier [] right := by
  induction left generalizing run with
  | nil =>
      cases right with
      | nil => simp [dropQualifier]
      | cons next rest =>
          have separates : ¬ isIdentifierChar next = true := by simpa using apart
          simp [dropQualifier, separates]
  | cons next rest induction =>
      rw [List.cons_append, dropQualifier, dropQualifier, induction, induction]
      split
      · rfl
      · simp

/-- A run of identifier characters is read to its end. -/
theorem dropQualifier_append (run word rest : List Char)
    (letters : ∀ character ∈ word, isIdentifierChar character = true) :
    dropQualifier run (word ++ rest) = dropQualifier (word.reverse ++ run) rest := by
  induction word generalizing run with
  | nil => rfl
  | cons next later induction =>
      obtain ⟨first, others⟩ := List.forall_mem_cons.mp letters
      rw [List.cons_append, dropQualifier, if_pos first, induction _ others]
      simp

theorem dropQualifier_of_letters {word : List Char}
    (letters : ∀ character ∈ word, isIdentifierChar character = true) :
    dropQualifier [] word = if word = qualifier then [' '] else word := by
  have whole := dropQualifier_append [] word [] letters
  rw [List.append_nil, List.append_nil, dropQualifier, closeRun, List.reverse_reverse] at whole
  exact whole

/-- A whole run other than the qualifier stays. -/
theorem dropQualifier_word {word rest : List Char}
    (letters : ∀ character ∈ word, isIdentifierChar character = true)
    (different : word ≠ qualifier) (ends : rest.head?.any isIdentifierChar = false) :
    ∃ others, dropQualifier [] (word ++ rest) = word ++ others :=
  ⟨dropQualifier [] rest, by
    rw [dropQualifier_append_of_head? ends, dropQualifier_of_letters letters, if_neg different]⟩

theorem tighten_ne_nil {text : List Char} (last : Option Char) (blankSeen : Bool)
    (letter : ∃ character ∈ text, isBlank character = false) :
    tighten last blankSeen text ≠ [] := by
  induction text generalizing blankSeen with
  | nil =>
      obtain ⟨_, member, _⟩ := letter
      cases member
  | cons next rest induction =>
      by_cases blank : isBlank next = true
      · rw [tighten, if_pos blank]
        apply induction
        obtain ⟨character, member, notBlank⟩ := letter
        rcases List.mem_cons.mp member with rfl | later
        · exact absurd blank (by simp [notBlank])
        · exact ⟨character, later, notBlank⟩
      · rw [tighten, if_neg blank]
        split <;> simp

theorem mem_tighten {last : Option Char} {blankSeen : Bool} {text : List Char} {character : Char}
    (member : character ∈ tighten last blankSeen text) : character ∈ text ∨ character = ' ' := by
  induction text generalizing last blankSeen with
  | nil => cases member
  | cons next rest induction =>
      have further : character ∈ rest ∨ character = ' ' → character ∈ next :: rest ∨ character = ' ' :=
        Or.imp_left (List.mem_cons_of_mem next)
      rw [tighten] at member
      split at member
      · exact further (induction member)
      · split at member
        · rcases List.mem_cons.mp member with space | member
          · exact Or.inr space
          · rcases List.mem_cons.mp member with rfl | later
            · exact Or.inl List.mem_cons_self
            · exact further (induction later)
        · rcases List.mem_cons.mp member with rfl | later
          · exact Or.inl List.mem_cons_self
          · exact further (induction later)

/-- What `tighten` remembers behind a text: the character written last, and whether it has read
blanks since. -/
def stateBehind (last : Option Char) (blankSeen : Bool) : List Char → Option Char × Bool
  | [] => (last, blankSeen)
  | next :: rest =>
    if isBlank next then stateBehind last true rest else stateBehind (some next) false rest

theorem tighten_append (last : Option Char) (blankSeen : Bool) (left right : List Char) :
    tighten last blankSeen (left ++ right) = tighten last blankSeen left ++
      tighten (stateBehind last blankSeen left).1 (stateBehind last blankSeen left).2 right := by
  induction left generalizing last blankSeen with
  | nil => rfl
  | cons next rest induction =>
      rw [List.cons_append, tighten, tighten, stateBehind]
      split
      · exact induction _ _
      · split <;> simp [induction]

/-- What `tighten` leaves, behind a run of identifier characters that was written last.  A blank
that was seen since ends the run; if it is not written, then one of its neighbours ends the run. -/
private theorem isUnqualified_behind_run {run : List Char} (text : List Char)
    (letters : ∀ character ∈ run, isIdentifierChar character = true) (last : Option Char)
    (isLast : run ≠ [] → last = run.getLast?) :
    (IsUnqualified (run ++ text) → IsUnqualified (run ++ tighten last false text)) ∧
      (IsUnqualified run → IsUnqualified text → IsUnqualified (run ++ tighten last true text)) := by
  induction text generalizing run last with
  | nil => exact ⟨id, fun free _ => by simpa [tighten] using free⟩
  | cons next rest induction =>
      have writes : ∀ {run : List Char}, (∀ character ∈ run, isIdentifierChar character = true) →
          IsUnqualified (run ++ next :: rest) →
            IsUnqualified (run ++ next :: tighten (some next) false rest) := by
        intro run letters free
        cases letter : isIdentifierChar next with
        | true =>
            have longer : ∀ character ∈ run ++ [next], isIdentifierChar character = true :=
              List.forall_mem_append.mpr ⟨letters, List.forall_mem_singleton.mpr letter⟩
            have further := (induction longer (some next) (by simp)).1
            simpa using further (by simpa using free)
        | false =>
            rw [isUnqualified_append_cons letter] at free ⊢
            have others := (@induction [] (by simp) (some next) (by simp)).1
            exact ⟨free.1, others free.2⟩
      by_cases blank : isBlank next = true
      · have separates := isIdentifierChar_of_isBlank blank
        rw [tighten, tighten, if_pos blank, if_pos blank, isUnqualified_append_cons separates,
          isUnqualified_cons separates]
        have further := (induction letters last isLast).2
        exact ⟨fun free => further free.1 free.2, further⟩
      · rw [tighten, tighten, if_neg blank, if_neg blank, if_neg (by simp)]
        refine ⟨writes letters, fun free freeText => ?_⟩
        split
        · have space : isIdentifierChar ' ' = false := by decide
          rw [isUnqualified_append_cons space]
          exact ⟨free, @writes [] (by simp) freeText⟩
        · rename_i notKept
          apply writes letters
          rcases List.eq_nil_or_concat run with rfl | ⟨front, final, rfl⟩
          · exact freeText
          · have tight : isTight next = true := by
              have letter := isTight_of_isIdentifierChar (letters final (by simp))
              simpa [isLast (by simp), keepsBlank, letter] using notKept
            have separates : isIdentifierChar next = false := by
              cases letter : isIdentifierChar next with
              | false => rfl
              | true => rw [isTight_of_isIdentifierChar letter] at tight; cases tight
            rw [isUnqualified_append_cons separates]
            exact ⟨free, (isUnqualified_cons separates).mp freeText⟩

theorem isUnqualified_tighten {text : List Char} (free : IsUnqualified text) :
    IsUnqualified (tighten none false text) :=
  (@isUnqualified_behind_run [] text (by simp) none (by simp)).1 free

theorem isUnqualified_normalForm (text : List Char) : IsUnqualified (normalForm text) :=
  isUnqualified_tighten (isUnqualified_dropQualifier (by simp) _)

theorem isReferenceSign_of_mem_normalForm {text : List Char} {character : Char}
    (member : character ∈ normalForm text) : isReferenceSign character = false := by
  have space : isReferenceSign ' ' = false := by decide
  rcases mem_tighten member with kept | rfl
  · rcases mem_dropQualifier kept with none | kept | rfl
    · cases none
    · simpa using (List.mem_filter.mp kept).2
    · exact space
  · exact space

/-- A blank at the end does not show. -/
theorem normalForm_append_blank (text : List Char) {blank : Char}
    (isBlank : Text.isBlank blank = true) : normalForm (text ++ [blank]) = normalForm text := by
  have separates := isIdentifierChar_of_isBlank isBlank
  have kept : [blank].filter (!isReferenceSign ·) = [blank] := by
    have noSign : isReferenceSign blank = false := by
      cases sign : isReferenceSign blank with
      | false => rfl
      | true => rcases isReferenceSign_iff.mp sign with rfl | rfl <;> exact Bool.noConfusion isBlank
    simp [noSign]
  have alone : dropQualifier [] [blank] = [blank] := by
    simp [dropQualifier, separates]
  rw [normalForm, normalForm, List.filter_append, kept,
    dropQualifier_append_of_head? (by simpa using separates), alone, tighten_append]
  simp [tighten, isBlank]

end ScriptRegistrar.TypeText
