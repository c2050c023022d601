import ScriptRegistrar.Proofs.Text.CharacterClasses
import ScriptRegistrar.Proofs.Text.Trimming

/-!
# Texts that differ in layout

Two texts are laid out alike but for the length and the kind of their blanks if they agree once
every maximal run of blanks is replaced by one space.  `Relaid` says the same step by step: the
texts have the same characters, with a run of blanks in one where the other has one.  The runs of
`Relaid` need not be maximal, so that parts of such texts can be put together and taken apart.
-/

namespace ScriptRegistrar.Text

/-- Leaves one space of every run of blanks.  `inRun` says that a blank was read just before. -/
def squeezeFrom (inRun : Bool) : List Char → List Char
  | [] => []
  | next :: rest =>
    if isBlank next then
      if inRun then squeezeFrom true rest else ' ' :: squeezeFrom true rest
    else next :: squeezeFrom false rest

/-- A text with every maximal run of blanks replaced by one space. -/
def squeeze (text : List Char) : List Char :=
  squeezeFrom false text

/-- Whether a text has no blanks. -/
def IsSolid (text : List Char) : Prop :=
  ∀ character ∈ text, isBlank character = false

instance (text : List Char) : Decidable (IsSolid text) :=
  List.decidableBAll _ text

theorem isSolid_of_isWordText {word : List Char} (isWordText : IsWordText word) : IsSolid word := by
  intro character member
  cases blank : isBlank character with
  | false => rfl
  | true =>
      have letter := isWordText.2 character member
      rw [isWord_of_isBlank blank] at letter
      exact Bool.noConfusion letter

structure IsBlankRun (run : List Char) : Prop where
  nonempty : run ≠ []
  blank : ∀ character ∈ run, isBlank character = true

inductive Relaid : List Char → List Char → Prop where
  | nil : Relaid [] []
  | character {next : Char} {left right : List Char} (solid : isBlank next = false)
      (rest : Relaid left right) : Relaid (next :: left) (next :: right)
  | blanks {run other left right : List Char} (first : IsBlankRun run) (second : IsBlankRun other)
      (rest : Relaid left right) : Relaid (run ++ left) (other ++ right)

theorem IsBlankRun.exists_cons {run : List Char} (isRun : IsBlankRun run) :
    ∃ first rest, run = first :: rest ∧ isBlank first = true ∧
      ∀ character ∈ rest, isBlank character = true := by
  obtain ⟨first, rest, rfl⟩ := List.exists_cons_of_ne_nil isRun.nonempty
  obtain ⟨blank, others⟩ := List.forall_mem_cons.mp isRun.blank
  exact ⟨first, rest, rfl, blank, others⟩

theorem IsBlankRun.not_mem {run : List Char} (isRun : IsBlankRun run) {sign : Char}
    (solid : isBlank sign = false) : sign ∉ run := by
  intro member
  rw [isRun.blank sign member] at solid
  exact Bool.noConfusion solid

theorem IsBlankRun.exists_concat {run : List Char} (isRun : IsBlankRun run) :
    ∃ front last, run = front ++ [last] ∧ isBlank last = true := by
  rcases List.eq_nil_or_concat run with rfl | ⟨front, last, rfl⟩
  · exact (isRun.nonempty rfl).elim
  · exact ⟨front, last, List.concat_eq_append, isRun.blank last (by simp)⟩

/-- A space may stand in the place of the last blank. -/
theorem IsBlankRun.front_append_space {front : List Char} {last : Char}
    (isRun : IsBlankRun (front ++ [last])) : IsBlankRun (front ++ [' ']) := by
  refine ⟨by simp, ?_⟩
  intro character member
  rcases List.mem_append.mp member with inFront | isSpace
  · exact isRun.blank character (List.mem_append_left _ inFront)
  · rw [List.mem_singleton.mp isSpace]
    rfl

theorem IsBlankRun.reverse {run : List Char} (isRun : IsBlankRun run) :
    IsBlankRun run.reverse :=
  ⟨by simpa using isRun.nonempty, by simpa using isRun.blank⟩

theorem isBlankRun_singleton {character : Char} (blank : isBlank character = true) :
    IsBlankRun [character] :=
  ⟨by simp, by simpa using blank⟩

/-- Whether a test makes no difference between blanks. -/
def IgnoresLayout (test : Char → Bool) : Prop :=
  ∀ left right, isBlank left = true → isBlank right = true → test left = test right

namespace IgnoresLayout

theorem of_false {test : Char → Bool} (fails : ∀ character, isBlank character = true →
    test character = false) : IgnoresLayout test := by
  intro left right leftBlank rightBlank
  rw [fails left leftBlank, fails right rightBlank]

theorem not {test : Char → Bool} (ignores : IgnoresLayout test) :
    IgnoresLayout (fun character => !test character) := by
  intro left right leftBlank rightBlank
  exact congrArg (!·) (ignores left right leftBlank rightBlank)

theorem or {test other : Char → Bool} (first : IgnoresLayout test) (second : IgnoresLayout other) :
    IgnoresLayout (fun character => test character || other character) := by
  intro left right leftBlank rightBlank
  simp only [first left right leftBlank rightBlank, second left right leftBlank rightBlank]

theorem isBlank : IgnoresLayout isBlank := by
  intro left right leftBlank rightBlank
  rw [leftBlank, rightBlank]

theorem isWord : IgnoresLayout isWord :=
  of_false fun _ blank => isWord_of_isBlank blank

theorem eq_sign {sign : Char} (solid : Text.isBlank sign = false) :
    IgnoresLayout (fun character => decide (character = sign)) := by
  apply of_false
  intro character blank
  rw [decide_eq_false_iff_not]
  rintro rfl
  rw [solid] at blank
  exact Bool.noConfusion blank

theorem ne_sign {sign : Char} (solid : Text.isBlank sign = false) :
    IgnoresLayout (fun character => decide (character ≠ sign)) := by
  have same := (eq_sign solid).not
  simpa only [← decide_not] using same

/-- Of a run of blanks a test takes all characters or none. -/
theorem all_or_none {test : Char → Bool} (ignores : IgnoresLayout test) {run other : List Char}
    (first : IsBlankRun run) (second : IsBlankRun other) :
    ((∀ character ∈ run, test character = true) ∧ ∀ character ∈ other, test character = true) ∨
      ((∀ character ∈ run, test character = false) ∧
        ∀ character ∈ other, test character = false) := by
  obtain ⟨blank, others, rfl, isBlank, _⟩ := first.exists_cons
  have same : ∀ character, Text.isBlank character = true → test character = test blank :=
    fun character isBlankToo => ignores character blank isBlankToo isBlank
  cases value : test blank with
  | true =>
      left
      constructor
      · exact fun character member => (same character (first.blank character member)).trans value
      · exact fun character member => (same character (second.blank character member)).trans value
  | false =>
      right
      constructor
      · exact fun character member => (same character (first.blank character member)).trans value
      · exact fun character member => (same character (second.blank character member)).trans value

end IgnoresLayout

namespace Relaid

theorem refl (text : List Char) : Relaid text text := by
  induction text with
  | nil => exact .nil
  | cons next rest induction =>
      cases blank : isBlank next with
      | false => exact .character blank induction
      | true => exact .blanks (isBlankRun_singleton blank) (isBlankRun_singleton blank) induction

theorem symm {left right : List Char} (relaid : Relaid left right) : Relaid right left := by
  induction relaid with
  | nil => exact .nil
  | character solid _ induction => exact .character solid induction
  | blanks first second _ induction => exact .blanks second first induction

theorem append {left right behindLeft behindRight : List Char} (relaid : Relaid left right)
    (behind : Relaid behindLeft behindRight) :
    Relaid (left ++ behindLeft) (right ++ behindRight) := by
  induction relaid with
  | nil => exact behind
  | character solid _ induction => exact .character solid induction
  | blanks first second _ induction =>
      rw [List.append_assoc, List.append_assoc]
      exact .blanks first second induction

theorem of_runs {run other : List Char} (first : IsBlankRun run) (second : IsBlankRun other) :
    Relaid run other := by
  simpa using Relaid.blanks first second .nil

theorem singleton {character : Char} (solid : isBlank character = false) :
    Relaid [character] [character] :=
  .character solid .nil

theorem reverse {left right : List Char} (relaid : Relaid left right) :
    Relaid left.reverse right.reverse := by
  induction relaid with
  | nil => exact .nil
  | character solid _ induction =>
      rw [List.reverse_cons, List.reverse_cons]
      exact induction.append (singleton solid)
  | blanks first second _ induction =>
      rw [List.reverse_append, List.reverse_append]
      exact induction.append (of_runs first.reverse second.reverse)

theorem eq_nil_iff {left right : List Char} (relaid : Relaid left right) :
    left = [] ↔ right = [] := by
  cases relaid with
  | nil => rfl
  | character => simp
  | blanks first second => simp [first.nonempty, second.nonempty]

/-- A character that is no blank comes first in both layouts. -/
theorem exists_of_cons {next : Char} {left right : List Char} (relaid : Relaid (next :: left) right)
    (solid : isBlank next = false) : ∃ rest, right = next :: rest ∧ Relaid left rest := by
  generalize shape : next :: left = text at relaid
  cases relaid with
  | nil => cases shape
  | character _ rest =>
      obtain ⟨rfl, rfl⟩ := List.cons.inj shape
      exact ⟨_, rfl, rest⟩
  | blanks first _ _ =>
      obtain ⟨blank, _, rfl, isBlank, _⟩ := first.exists_cons
      obtain ⟨rfl, _⟩ := List.cons.inj shape
      rw [solid] at isBlank
      exact Bool.noConfusion isBlank

/-- A text without blanks can be laid out in one way only. -/
theorem eq_of_solid {left right : List Char} (relaid : Relaid left right)
    (solid : IsSolid left) : left = right := by
  induction relaid with
  | nil => rfl
  | character _ _ induction =>
      rw [induction (List.forall_mem_cons.mp solid).2]
  | blanks first _ _ =>
      obtain ⟨blank, _, rfl, isBlank, _⟩ := first.exists_cons
      rw [solid blank (by simp)] at isBlank
      exact Bool.noConfusion isBlank

/-- What holds of texts without blanks only holds of two layouts of a text or of neither. -/
theorem test_eq {left right : List Char} (relaid : Relaid left right) {test : List Char → Bool}
    (solid : ∀ text, test text = true → IsSolid text) : test left = test right := by
  cases onLeft : test left with
  | true => rw [← relaid.eq_of_solid (solid left onLeft), onLeft]
  | false =>
      cases onRight : test right with
      | true =>
          rw [← relaid.symm.eq_of_solid (solid right onRight), onRight] at onLeft
          exact onLeft.symm
      | false => rfl

section

variable {test : Char → Bool} (ignores : IgnoresLayout test) {left right : List Char}

include ignores

theorem head?_any (relaid : Relaid left right) : left.head?.any test = right.head?.any test := by
  cases relaid with
  | nil => rfl
  | character => rfl
  | blanks first second =>
      obtain ⟨blank, _, rfl, isBlank, _⟩ := first.exists_cons
      obtain ⟨otherBlank, _, rfl, isOtherBlank, _⟩ := second.exists_cons
      exact ignores blank otherBlank isBlank isOtherBlank

theorem takeWhile (relaid : Relaid left right) :
    Relaid (left.takeWhile test) (right.takeWhile test) := by
  induction relaid with
  | nil => exact .nil
  | @character next left right solid _ induction =>
      rw [List.takeWhile_cons, List.takeWhile_cons]
      split
      · exact .character solid induction
      · exact .nil
  | blanks first second _ induction =>
      rcases ignores.all_or_none first second with ⟨onFirst, onSecond⟩ | ⟨onFirst, onSecond⟩
      · rw [List.takeWhile_append_of_pos onFirst, List.takeWhile_append_of_pos onSecond]
        exact .blanks first second induction
      · obtain ⟨blank, _, rfl, _⟩ := first.exists_cons
        obtain ⟨otherBlank, _, rfl, _⟩ := second.exists_cons
        rw [List.cons_append, List.cons_append,
          List.takeWhile_cons_of_neg (by simp [onFirst blank List.mem_cons_self]),
          List.takeWhile_cons_of_neg (by simp [onSecond otherBlank List.mem_cons_self])]
        exact .nil

theorem dropWhile (relaid : Relaid left right) :
    Relaid (left.dropWhile test) (right.dropWhile test) := by
  induction relaid with
  | nil => exact .nil
  | @character next left right solid rest induction =>
      rw [List.dropWhile_cons, List.dropWhile_cons]
      split
      · exact induction
      · exact .character solid rest
  | blanks first second rest induction =>
      rcases ignores.all_or_none first second with ⟨onFirst, onSecond⟩ | ⟨onFirst, onSecond⟩
      · rw [List.dropWhile_append_of_pos onFirst, List.dropWhile_append_of_pos onSecond]
        exact induction
      · have whole := Relaid.blanks first second rest
        obtain ⟨blank, _, rfl, _⟩ := first.exists_cons
        obtain ⟨otherBlank, _, rfl, _⟩ := second.exists_cons
        rw [List.cons_append, List.cons_append,
          List.dropWhile_cons_of_neg (by simp [onFirst blank List.mem_cons_self]),
          List.dropWhile_cons_of_neg (by simp [onSecond otherBlank List.mem_cons_self])]
        exact whole

theorem filter (relaid : Relaid left right) : Relaid (left.filter test) (right.filter test) := by
  induction relaid with
  | nil => exact .nil
  | @character next left right solid _ induction =>
      rw [List.filter_cons, List.filter_cons]
      split
      · exact .character solid induction
      · exact induction
  | @blanks run other left right first second _ induction =>
      rw [List.filter_append, List.filter_append]
      rcases ignores.all_or_none first second with ⟨onFirst, onSecond⟩ | ⟨onFirst, onSecond⟩
      · rw [List.filter_eq_self.mpr onFirst, List.filter_eq_self.mpr onSecond]
        exact .blanks first second induction
      · have noneOfRun : run.filter test = [] := by simpa using onFirst
        have noneOfOther : other.filter test = [] := by simpa using onSecond
        rw [noneOfRun, noneOfOther]
        exact induction

theorem dropEndWhile (relaid : Relaid left right) :
    Relaid (dropEndWhile test left) (dropEndWhile test right) := by
  have turned := (relaid.reverse.dropWhile ignores).reverse
  rwa [← dropEndWhile_reverse, ← dropEndWhile_reverse, List.reverse_reverse,
    List.reverse_reverse] at turned

/-- A run of word characters is the same in both layouts. -/
theorem takeWhile_eq (fails : ∀ character, isBlank character = true → test character = false)
    (relaid : Relaid left right) : left.takeWhile test = right.takeWhile test := by
  apply (relaid.takeWhile ignores).eq_of_solid
  intro character member
  have holds := List.all_eq_true.mp List.all_takeWhile character member
  cases blank : isBlank character with
  | false => rfl
  | true =>
      rw [fails character blank] at holds
      exact Bool.noConfusion holds

end

theorem getLast?_any {test : Char → Bool} (ignores : IgnoresLayout test) {left right : List Char}
    (relaid : Relaid left right) : left.getLast?.any test = right.getLast?.any test := by
  have turned := head?_any ignores relaid.reverse
  rwa [List.head?_reverse, List.head?_reverse] at turned

theorem trim {left right : List Char} (relaid : Relaid left right) :
    Relaid (trim left) (trim right) :=
  (relaid.dropWhile .isBlank).dropEndWhile .isBlank

/-- A word without blanks comes next in both layouts or in neither. -/
theorem isPrefixOf_eq {word left right : List Char} (solid : IsSolid word)
    (relaid : Relaid left right) :
    word.isPrefixOf left = word.isPrefixOf right := by
  induction word generalizing left right with
  | nil => simp
  | cons first others induction =>
      obtain ⟨firstSolid, othersSolid⟩ := List.forall_mem_cons.mp solid
      cases relaid with
      | nil => rfl
      | character _ rest =>
          rw [List.isPrefixOf_cons_cons, List.isPrefixOf_cons_cons, induction othersSolid rest]
      | blanks run other _ =>
          obtain ⟨blank, _, rfl, isBlank, _⟩ := run.exists_cons
          obtain ⟨otherBlank, _, rfl, isOtherBlank, _⟩ := other.exists_cons
          have different : ∀ {character : Char}, Text.isBlank character = true →
              (first == character) = false := by
            intro character blankToo
            rw [beq_eq_false_iff_ne]
            rintro rfl
            rw [firstSolid] at blankToo
            exact Bool.noConfusion blankToo
          rw [List.cons_append, List.cons_append, List.isPrefixOf_cons_cons,
            List.isPrefixOf_cons_cons, different isBlank, different isOtherBlank, Bool.false_and,
            Bool.false_and]

theorem drop {word left right : List Char} (solid : IsSolid word)
    (relaid : Relaid left right)
    (comesNext : word.isPrefixOf left = true) :
    Relaid (left.drop word.length) (right.drop word.length) := by
  induction word generalizing left right with
  | nil => exact relaid
  | cons first others induction =>
      obtain ⟨firstSolid, othersSolid⟩ := List.forall_mem_cons.mp solid
      cases relaid with
      | nil => exact Bool.noConfusion comesNext
      | character _ rest =>
          rw [List.isPrefixOf_cons_cons, Bool.and_eq_true] at comesNext
          exact induction othersSolid rest comesNext.2
      | blanks run _ _ =>
          obtain ⟨blank, _, rfl, isBlank, _⟩ := run.exists_cons
          rw [List.cons_append, List.isPrefixOf_cons_cons, Bool.and_eq_true, beq_iff_eq]
            at comesNext
          rw [← comesNext.1, firstSolid] at isBlank
          exact Bool.noConfusion isBlank

end Relaid

theorem squeezeFrom_true (text : List Char) :
    squeezeFrom true text = squeeze (text.dropWhile isBlank) := by
  induction text with
  | nil => rfl
  | cons next rest induction =>
      cases blank : isBlank next with
      | true => simp [squeezeFrom, blank, induction]
      | false => simp [squeeze, squeezeFrom, blank]

theorem squeeze_cons_of_isBlank {next : Char} (rest : List Char) (blank : isBlank next = true) :
    squeeze (next :: rest) = ' ' :: squeeze (rest.dropWhile isBlank) := by
  rw [squeeze, squeezeFrom, if_pos blank, if_neg Bool.false_ne_true, squeezeFrom_true]

theorem squeeze_cons_of_not_isBlank {next : Char} (rest : List Char)
    (solid : isBlank next = false) : squeeze (next :: rest) = next :: squeeze rest := by
  rw [squeeze, squeezeFrom, if_neg (by simp [solid])]
  rfl

theorem exists_squeeze_cons (next : Char) (rest : List Char) :
    ∃ first behind, squeeze (next :: rest) = first :: behind ∧ isBlank first = isBlank next := by
  cases blank : isBlank next with
  | true => exact ⟨' ', _, squeeze_cons_of_isBlank rest blank, rfl⟩
  | false => exact ⟨next, _, squeeze_cons_of_not_isBlank rest blank, blank⟩

/-- The run of blanks at the beginning of a text. -/
theorem isBlankRun_takeWhile {next : Char} (rest : List Char) (blank : isBlank next = true) :
    IsBlankRun (next :: rest.takeWhile isBlank) :=
  ⟨by simp, List.forall_mem_cons.mpr
    ⟨blank, fun _ member => List.all_eq_true.mp List.all_takeWhile _ member⟩⟩

/-- Texts that agree once their runs of blanks are replaced by spaces are layouts of one text. -/
theorem relaid_of_squeeze {left right : List Char} (same : squeeze left = squeeze right) :
    Relaid left right := by
  generalize length : left.length = bound
  induction bound using Nat.strongRecOn generalizing left right with
  | ind bound induction =>
      cases left with
      | nil =>
          cases right with
          | nil => exact .nil
          | cons next rest =>
              obtain ⟨_, _, shape, _⟩ := exists_squeeze_cons next rest
              rw [shape] at same
              cases same
      | cons first others =>
          obtain ⟨_, _, shape, alike⟩ := exists_squeeze_cons first others
          cases right with
          | nil =>
              rw [shape] at same
              cases same
          | cons next rest =>
              obtain ⟨_, _, otherShape, otherAlike⟩ := exists_squeeze_cons next rest
              have heads := same
              rw [shape, otherShape, List.cons.injEq] at heads
              rw [heads.1, otherAlike] at alike
              rw [List.length_cons] at length
              cases blank : isBlank first with
              | false =>
                  rw [squeeze_cons_of_not_isBlank others blank,
                    squeeze_cons_of_not_isBlank rest (alike.trans blank), List.cons.injEq] at same
                  obtain ⟨rfl, sameRest⟩ := same
                  exact .character blank (induction others.length (by omega) sameRest rfl)
              | true =>
                  have nextBlank := alike.trans blank
                  rw [squeeze_cons_of_isBlank others blank, squeeze_cons_of_isBlank rest nextBlank,
                    List.cons.injEq] at same
                  have shorter := (List.dropWhile_sublist isBlank (l := others)).length_le
                  have relaid := Relaid.blanks (isBlankRun_takeWhile others blank)
                    (isBlankRun_takeWhile rest nextBlank) (induction _ (by omega) same.2 rfl)
                  simpa only [List.cons_append, List.takeWhile_append_dropWhile] using relaid

theorem squeezeFrom_append_of_isBlankRun {run : List Char} (isRun : IsBlankRun run)
    (inRun : Bool) (rest : List Char) :
    squeezeFrom inRun (run ++ rest) =
      if inRun then squeezeFrom true rest else ' ' :: squeezeFrom true rest := by
  obtain ⟨first, others, rfl, blank, othersBlank⟩ := isRun.exists_cons
  have passes : squeezeFrom true (others ++ rest) = squeezeFrom true rest := by
    rw [squeezeFrom_true, List.dropWhile_append_of_pos othersBlank, ← squeezeFrom_true]
  rw [List.cons_append, squeezeFrom, if_pos blank, passes]

theorem Relaid.squeezeFrom_eq {left right : List Char} (relaid : Relaid left right)
    (inRun : Bool) : squeezeFrom inRun left = squeezeFrom inRun right := by
  induction relaid generalizing inRun with
  | nil => rfl
  | character _ _ induction => simp only [squeezeFrom, induction]
  | blanks first second _ induction =>
      rw [squeezeFrom_append_of_isBlankRun first, squeezeFrom_append_of_isBlankRun second,
        induction]

/-- Layouts of one text are what agrees once every run of blanks is replaced by a space. -/
theorem relaid_iff_squeeze {left right : List Char} :
    Relaid left right ↔ squeeze left = squeeze right :=
  ⟨fun relaid => relaid.squeezeFrom_eq false, relaid_of_squeeze⟩

@[simp] theorem squeezeFrom_squeezeFrom (inRun : Bool) (text : List Char) :
    squeezeFrom inRun (squeezeFrom inRun text) = squeezeFrom inRun text := by
  induction text generalizing inRun with
  | nil => rfl
  | cons next rest induction =>
      cases blank : isBlank next with
      | false => simp [squeezeFrom, blank, induction]
      | true =>
          have space : isBlank ' ' = true := rfl
          cases inRun <;> simp [squeezeFrom, blank, space, induction]

theorem relaid_squeeze (text : List Char) : Relaid text (squeeze text) :=
  relaid_iff_squeeze.mpr (squeezeFrom_squeezeFrom false text).symm

end ScriptRegistrar.Text
