import ScriptRegistrar.Proofs.BracketDepth
import ScriptRegistrar.Proofs.ConstructorLocality

/-!
# Exchanging the body of a constructor

If the body of a constructor is exchanged for another balanced text, the constructor is found at
the same place, with the new body.  If neither of the two bodies holds the head of another class's
constructor, that constructor is found as well, with the body it had, unless its body holds the
first one.
-/

namespace ScriptRegistrar

open Text Text.Cursor Text.Recogniser Bracketed

namespace Constructor

/-- Whether the head of a constructor of a class starts nowhere in a text. -/
def HeadFree (className text : List Char) : Prop :=
  ∀ before rest, text = before ++ rest → readHead? className ⟨before.reverse, rest⟩ = none

/-- Where a class's constructor is found in a text: behind `before`, with `front` in front of its
brace. -/
structure FoundAt (className text before front body behind : List Char) : Prop where
  text_eq : text = before ++ (front ++ '\x7b' :: (body ++ '\x7d' :: behind))
  noBrace : '\x7b' ∉ front
  starts : StartsAt className text ⟨before.reverse, front ++ '\x7b' :: (body ++ '\x7d' :: behind)⟩
  balanced : Balanced '\x7b' '\x7d' body
  least : ∀ start, StartsAt className text start → byteLength before ≤ start.offset

variable {className otherName text before front body behind : List Char}

theorem HeadFree.of_not_mem (isWordText : IsWordText className) (noBrace : '\x7b' ∉ text) :
    HeadFree className text := by
  rintro before rest rfl
  exact readHead?_of_noBrace isWordText fun member => noBrace (List.mem_append_right before member)

theorem readHead?_eq_of_isSome (isWordText : IsWordText className) {passed rest : List Char}
    (noBrace : '\x7b' ∉ front)
    (reads : (readHead? className ⟨passed, front ++ '\x7b' :: rest⟩).isSome = true) :
    readHead? className ⟨passed, front ++ '\x7b' :: rest⟩ =
      some ((⟨passed, front ++ '\x7b' :: rest⟩, ⟨'\x7b' :: (front.reverse ++ passed), rest⟩),
        ⟨'\x7b' :: (front.reverse ++ passed), rest⟩) := by
  obtain ⟨⟨⟨start, opened⟩, next⟩, read⟩ := Option.isSome_iff_exists.mp reads
  obtain ⟨rfl, rfl, _⟩ := across_of_readHead? read
  obtain ⟨otherFront, isFront, ahead, back⟩ := front_of_readHead? read
  obtain ⟨same, sameRest⟩ := eq_of_first_sign noBrace
    (not_mem_of_isHeadChar (isFront.headChars isWordText)) ahead
  obtain ⟨nextPassed, nextAhead⟩ := opened
  simp only at back sameRest
  rw [read, back, ← same, ← sameRest]

theorem eq_of_offset_eq {left right : Cursor} (same : left.text = right.text)
    (sameOffset : left.offset = right.offset) : left = right := by
  have found := atOffset?_offset left
  rw [same, sameOffset, atOffset?_offset] at found
  exact (Option.some.inj found).symm

theorem exists_foundAt (isName : IsClassName className) {constructor : Constructor}
    (found : find? className text = some constructor) :
    ∃ before front,
      FoundAt className text before front constructor.body constructor.behind := by
  have stands := standsIn_of_find? found
  obtain ⟨front, isFront, ahead, back⟩ := front_of_readHead? stands.head
  rw [append_of_close? stands.closes] at ahead
  have shape : constructor.start = ⟨constructor.start.passed.reverse.reverse,
      front ++ '\x7b' :: (constructor.body ++ '\x7d' :: constructor.behind)⟩ := by
    rw [List.reverse_reverse, ← ahead]
  have starts := stands.startsAt
  refine ⟨constructor.start.passed.reverse, front, ?_⟩
  constructor
  case text_eq =>
    rw [← ahead]
    exact starts.place.symm
  case noBrace => exact not_mem_of_isHeadChar (isFront.headChars isName.isWordText)
  case starts => rwa [← shape]
  case balanced => exact balanced_of_close? (by decide) stands.closes
  case least =>
    intro start other
    rw [byteLength_reverse]
    exact offset_le_of_startsAt isName found other

namespace FoundAt

theorem find?_eq (isName : IsClassName className)
    (found : FoundAt className text before front body behind) :
    find? className text = some
      { start := ⟨before.reverse, front ++ '\x7b' :: (body ++ '\x7d' :: behind)⟩
        opened := ⟨'\x7b' :: (front.reverse ++ before.reverse), body ++ '\x7d' :: behind⟩
        body := body
        behind := behind } := by
  have read := readHead?_eq_of_isSome isName.isWordText found.noBrace found.starts.reads
  have toStart : Across (Cursor.start text) before
      ⟨before.reverse, front ++ '\x7b' :: (body ++ '\x7d' :: behind)⟩ :=
    ⟨found.text_eq, by simp [Cursor.start]⟩
  obtain ⟨⟨start, opened⟩, first⟩ := exists_find?_occurrences (goesForward_readHead? className)
    (advances_readHead? className) (apart_readHead? isName)
    (fun head : Cursor × Cursor => !isDestructor head.1) toStart read
    (by simp [found.starts.notDestructor])
  obtain ⟨earlier, place, next, across, reads, least⟩ := first_of_find?_occurrences
    (goesForward_readHead? className) (advances_readHead? className) (apart_readHead? isName) first
  obtain ⟨rfl, rfl, _⟩ := across_of_readHead? reads
  have notDestructor := List.find?_some first
  simp only [Bool.not_eq_true'] at notDestructor
  have startsFirst : StartsAt className text start :=
    ⟨across.text_eq, by rw [reads]; rfl, notDestructor⟩
  obtain ⟨gap, shape, _⟩ := across.split toStart
    (least _ _ _ _ toStart read (by simp [found.starts.notDestructor]))
  have notLater := found.least start startsFirst
  have offset : start.offset = byteLength earlier := by
    rw [Cursor.offset, across.2]
    simp [Cursor.start]
  have same : start = ⟨before.reverse, front ++ '\x7b' :: (body ++ '\x7d' :: behind)⟩ := by
    apply eq_of_offset_eq
    · rw [startsFirst.place, found.starts.place]
    · rw [offset] at notLater ⊢
      rw [Cursor.offset, byteLength_reverse]
      rw [shape, byteLength_append] at notLater ⊢
      omega
  subst same
  rw [read] at reads
  simp only [Option.some.injEq, Prod.mk.injEq, true_and] at reads
  obtain ⟨rfl, -⟩ := reads
  have closes : braces? (body ++ '\x7d' :: behind) = some (body, behind) :=
    close?_of_balanced (by decide) found.balanced behind
  simp only [find?, first, Option.bind_eq_bind, Option.bind_some, closes]

end FoundAt

/-- A place of a text is in front of a constructor's brace, in its body or behind it. -/
theorem place_cases {start : Cursor} {pre : List Char}
    (place : start.text = pre ++ '\x7b' :: (body ++ '\x7d' :: behind)) :
    (∃ mid, pre = start.passed.reverse ++ mid ∧
      start.ahead = mid ++ '\x7b' :: (body ++ '\x7d' :: behind)) ∨
    (∃ first second, body = first ++ second ∧ start.ahead = second ++ '\x7d' :: behind ∧
      start.passed = first.reverse ++ '\x7b' :: pre.reverse) ∨
    ∃ between, behind = between ++ start.ahead ∧
      start.passed = between.reverse ++ '\x7d' :: (body.reverse ++ '\x7b' :: pre.reverse) := by
  have reversed : ∀ {passed : List Char}, start.passed.reverse = passed →
      start.passed = passed.reverse := fun same => by rw [← same, List.reverse_reverse]
  rcases List.append_eq_append_iff.mp place with ⟨mid, shape, ahead⟩ | ⟨further, passed, shape⟩
  · exact Or.inl ⟨mid, shape, ahead⟩
  · cases further with
    | nil => exact Or.inl ⟨[], by simpa using passed.symm, by simpa using shape.symm⟩
    | cons brace others =>
        rw [List.cons_append, List.cons.injEq] at shape
        obtain ⟨rfl, inside⟩ := shape
        rcases List.append_eq_append_iff.mp inside with ⟨later, longer, ahead⟩ | ⟨later, longer, ahead⟩
        · cases later with
          | nil =>
              refine Or.inr (Or.inl ⟨body, [], by simp, by simpa using ahead.symm, ?_⟩)
              rw [reversed passed, longer]
              simp
          | cons closing between =>
              rw [List.cons_append, List.cons.injEq] at ahead
              obtain ⟨rfl, ahead⟩ := ahead
              refine Or.inr (Or.inr ⟨between, ahead, ?_⟩)
              rw [reversed passed, longer]
              simp
        · refine Or.inr (Or.inl ⟨others, later, longer, ahead, ?_⟩)
          rw [reversed passed]
          simp

theorem head?_dropWhile_append_cons {test : Char → Bool} {sign : Char} (stops : test sign = false)
    (left right : List Char) : ((left ++ sign :: right).dropWhile test).head? =
      ((left ++ [sign]).dropWhile test).head? := by
  induction left with
  | nil => simp [stops]
  | cons next others induction =>
      rw [List.cons_append, List.cons_append, List.dropWhile_cons, List.dropWhile_cons]
      split
      · exact induction
      · rfl

namespace StartsAt

theorem exchange_behind {passed mid pre rest : List Char} (isWordText : IsWordText className)
    (starts : StartsAt className (pre ++ '\x7b' :: rest) ⟨passed, mid ++ '\x7b' :: rest⟩)
    (further : List Char) :
    StartsAt className (pre ++ '\x7b' :: further) ⟨passed, mid ++ '\x7b' :: further⟩ where
  place := by
    have parts : passed.reverse ++ mid = pre := by
      have place := starts.place
      rw [Cursor.text, ← List.append_assoc] at place
      exact List.append_cancel_right place
    rw [Cursor.text, ← List.append_assoc, parts]
  reads := by
    rw [isSome_readHead?_congr isWordText]
    · exact starts.reads
    · cases mid <;> rfl
  notDestructor := starts.notDestructor

/-- What comes before a closing brace does not matter for a place behind it. -/
theorem exchange_before {front between rest : List Char} (isWordText : IsWordText className)
    (starts : StartsAt className text ⟨between.reverse ++ '\x7d' :: front, rest⟩)
    (other : List Char) :
    StartsAt className (other.reverse ++ '\x7d' :: (between ++ rest))
      ⟨between.reverse ++ '\x7d' :: other, rest⟩ where
  place := by simp [Cursor.text]
  reads := by
    obtain ⟨⟨⟨start, opened⟩, next⟩, read⟩ := Option.isSome_iff_exists.mp starts.reads
    obtain ⟨head, _, ahead, _⟩ := front_of_readHead? read
    have reads := starts.reads
    simp only at ahead
    rw [ahead] at reads ⊢
    rw [isSome_readHead?_congr isWordText]
    · exact reads
    · cases between.reverse <;> rfl
  notDestructor := by
    have stops : isBlank '\x7d' = false := by decide
    have notDestructor := starts.notDestructor
    rw [isDestructor, head?_dropWhile_append_cons stops] at notDestructor ⊢
    exact notDestructor

end StartsAt

theorem HeadFree.not_startsAt {first second passed : List Char} (isWordText : IsWordText className)
    (free : HeadFree className (first ++ second)) :
    ¬ StartsAt className text ⟨first.reverse ++ '\x7b' :: passed, second ++ '\x7d' :: behind⟩ := by
  intro starts
  have reads := starts.reads
  by_cases brace : '\x7b' ∈ second
  · obtain ⟨stretch, rest, rfl, _⟩ := List.eq_append_cons_of_mem brace
    have nowhere := free first (stretch ++ '\x7b' :: rest) rfl
    have sameBoundary : (Cursor.mk (first.reverse ++ '\x7b' :: passed)
        (stretch ++ '\x7b' :: (rest ++ '\x7d' :: behind))).isBoundary =
          (Cursor.mk first.reverse (stretch ++ '\x7b' :: rest)).isBoundary := by
      cases first.reverse <;> cases stretch <;> rfl
    rw [List.append_assoc, List.cons_append, isSome_readHead?_congr isWordText sameBoundary,
      nowhere] at reads
    cases reads
  · have nowhere := @readHead?_of_stopper _ isWordText (first.reverse ++ '\x7b' :: passed)
      (second ++ ['\x7d']) behind '\x7d' (by simpa using brace) (by simp) (by decide)
    rw [List.append_assoc, List.singleton_append] at nowhere
    rw [nowhere] at reads
    cases reads

theorem offsets_of_startsAt {pre new : List Char} {start : Cursor}
    (isWordText : IsWordText className) (body : List Char) (newFree : HeadFree className new)
    (starts : StartsAt className (pre ++ '\x7b' :: (new ++ '\x7d' :: behind)) start) :
    ∃ other, StartsAt className (pre ++ '\x7b' :: (body ++ '\x7d' :: behind)) other ∧
      ((other.offset = start.offset ∧ start.offset ≤ byteLength pre) ∨
        ∃ gap, start.offset = byteLength pre + byteLength new + gap ∧
          other.offset = byteLength pre + byteLength body + gap) := by
  obtain ⟨passed, ahead⟩ := start
  rcases place_cases starts.place with ⟨mid, rfl, rfl⟩ | ⟨first, second, rfl, rfl, rfl⟩ |
    ⟨between, rfl, rfl⟩
  · refine ⟨_, starts.exchange_behind isWordText (body ++ '\x7d' :: behind), Or.inl ⟨rfl, ?_⟩⟩
    simp [Cursor.offset]
  · exact (newFree.not_startsAt isWordText starts).elim
  · have moved := starts.exchange_before isWordText (body.reverse ++ '\x7b' :: pre.reverse)
    refine ⟨_, by simpa using moved, Or.inr ⟨byteLength between + 2, ?_, ?_⟩⟩
    · simp only [Cursor.offset, byteLength_append, byteLength_reverse, byteLength,
        utf8Size_openingBrace, utf8Size_closingBrace]
      omega
    · simp only [Cursor.offset, byteLength_append, byteLength_reverse, byteLength,
        utf8Size_openingBrace, utf8Size_closingBrace]
      omega

namespace FoundAt

/-- The constructor whose body is exchanged is found at the same place. -/
theorem exchange_self (isWordText : IsWordText className)
    (found : FoundAt className text before front body behind) {other : List Char}
    (balanced : Balanced '\x7b' '\x7d' other) :
    FoundAt className (before ++ (front ++ '\x7b' :: (other ++ '\x7d' :: behind))) before front other
      behind where
  text_eq := rfl
  noBrace := found.noBrace
  starts := by
    have starts := found.starts
    rw [found.text_eq, ← List.append_assoc] at starts
    rw [← List.append_assoc]
    exact starts.exchange_behind isWordText _
  balanced := balanced
  least := by
    intro start starts
    have place := starts.place
    rw [← List.append_assoc] at place
    obtain ⟨passed, ahead⟩ := start
    rcases place_cases place with ⟨mid, shape, rfl⟩ | ⟨first, second, _, _, rfl⟩ |
      ⟨between, _, rfl⟩
    · -- In front of the brace nothing changed.
      rw [← List.append_assoc] at starts
      have earlier := starts.exchange_behind isWordText (body ++ '\x7d' :: behind)
      rw [List.append_assoc, ← found.text_eq] at earlier
      have notLater := found.least _ earlier
      exact notLater
    · simp only [Cursor.offset, byteLength_append, byteLength_reverse, byteLength]
      omega
    · simp only [Cursor.offset, byteLength_append, byteLength_reverse, byteLength]
      omega

theorem parts_of_noBrace {left right first second : List Char} (noBrace : '\x7b' ∉ right)
    (same : left ++ right = first ++ '\x7b' :: second) :
    ∃ gap, left = first ++ '\x7b' :: gap ∧ second = gap ++ right := by
  rcases List.append_eq_append_iff.mp same with ⟨further, rfl, rfl⟩ | ⟨further, rfl, shape⟩
  · exact (noBrace (by simp)).elim
  · cases further with
    | nil => exact (noBrace (by rw [← List.nil_append right, ← shape]; simp)).elim
    | cons brace gap =>
        rw [List.cons_append, List.cons.injEq] at shape
        obtain ⟨rfl, rfl⟩ := shape
        exact ⟨gap, rfl, rfl⟩

theorem not_headFree {gap : List Char} (isWordText : IsWordText className)
    (found : FoundAt className text (before ++ '\x7b' :: gap) front body behind)
    (rest : List Char) : ¬ HeadFree className (gap ++ (front ++ '\x7b' :: rest)) := by
  intro holds
  have nowhere := holds gap _ rfl
  have reads := found.starts.reads
  have passed : (before ++ '\x7b' :: gap).reverse = gap.reverse ++ '\x7b' :: before.reverse := by
    simp
  rw [passed, isSome_readHead?_congr isWordText, nowhere] at reads
  · cases reads
  · cases gap.reverse <;> cases front <;> rfl

theorem offsets_of_exchanged {pre new : List Char} {start : Cursor}
    (isWordText : IsWordText className)
    (found : FoundAt className text before front body behind) {old rest : List Char}
    (text_eq : text = pre ++ '\x7b' :: (old ++ '\x7d' :: rest)) (newFree : HeadFree className new)
    (starts : StartsAt className (pre ++ '\x7b' :: (new ++ '\x7d' :: rest)) start) :
    (byteLength before ≤ start.offset ∧ start.offset ≤ byteLength pre) ∨
      ∃ gap, start.offset = byteLength pre + byteLength new + gap ∧
        byteLength before ≤ byteLength pre + byteLength old + gap := by
  obtain ⟨earlier, startsOld, ⟨same, inFront⟩ | ⟨gap, further, shifted⟩⟩ :=
    offsets_of_startsAt isWordText old newFree starts
  · rw [← text_eq] at startsOld
    exact Or.inl ⟨same ▸ found.least earlier startsOld, inFront⟩
  · rw [← text_eq] at startsOld
    exact Or.inr ⟨gap, further, shifted ▸ found.least earlier startsOld⟩

section

variable {pre gap old new later : List Char} (isWordText : IsWordText className)
  (newFree : HeadFree className new)

include isWordText newFree

theorem exchange_behind_head {stretch newBody newBehind : List Char}
    (found : FoundAt className text before front body behind)
    (was : body ++ '\x7d' :: behind = stretch ++ '\x7b' :: (old ++ '\x7d' :: later))
    (becomes : newBody ++ '\x7d' :: newBehind = stretch ++ '\x7b' :: (new ++ '\x7d' :: later))
    (balanced : Balanced '\x7b' '\x7d' newBody) :
    FoundAt className (before ++ (front ++ '\x7b' :: (newBody ++ '\x7d' :: newBehind))) before
      front newBody newBehind := by
  have shape : ∀ inside : List Char, front ++ '\x7b' :: (stretch ++ '\x7b' :: inside) =
      (front ++ '\x7b' :: stretch) ++ '\x7b' :: inside := by
    intro inside
    simp
  have text_eq := found.text_eq
  have starts := found.starts
  rw [was, shape, ← List.append_assoc] at text_eq
  rw [was, text_eq, shape] at starts
  refine ⟨rfl, found.noBrace, ?_, balanced, ?_⟩
  · rw [becomes, shape, ← List.append_assoc]
    exact starts.exchange_behind isWordText _
  · intro start startsNew
    rw [becomes, shape, ← List.append_assoc] at startsNew
    rcases found.offsets_of_exchanged isWordText text_eq newFree startsNew with
      ⟨notLater, _⟩ | ⟨further, offset, _⟩
    · exact notLater
    · rw [byteLength_append] at offset
      omega

theorem exchange_behind
    (found : FoundAt className text before front body (gap ++ '\x7b' :: (old ++ '\x7d' :: behind))) :
    FoundAt className (before ++ (front ++ '\x7b' :: (body ++ '\x7d' ::
      (gap ++ '\x7b' :: (new ++ '\x7d' :: behind))))) before front body
        (gap ++ '\x7b' :: (new ++ '\x7d' :: behind)) := by
  have shape : ∀ inside : List Char, body ++ '\x7d' :: (gap ++ '\x7b' :: (inside ++ '\x7d' ::
      behind)) = (body ++ '\x7d' :: gap) ++ '\x7b' :: (inside ++ '\x7d' :: behind) := by
    intro inside
    simp
  exact found.exchange_behind_head isWordText newFree (shape old) (shape new) found.balanced

theorem exchange_within
    (found : FoundAt className text before front (gap ++ '\x7b' :: (old ++ '\x7d' :: later)) behind)
    (oldBalanced : Balanced '\x7b' '\x7d' old) (newBalanced : Balanced '\x7b' '\x7d' new) :
    FoundAt className (before ++ (front ++ '\x7b' :: (gap ++ '\x7b' :: (new ++ '\x7d' :: later) ++
      '\x7d' :: behind))) before front (gap ++ '\x7b' :: (new ++ '\x7d' :: later)) behind := by
  have shape : ∀ inside : List Char, gap ++ '\x7b' :: (inside ++ '\x7d' :: later) ++ '\x7d' ::
      behind = gap ++ '\x7b' :: (inside ++ '\x7d' :: (later ++ '\x7d' :: behind)) := by
    intro inside
    simp
  exact found.exchange_behind_head isWordText newFree (shape old) (shape new)
    (found.balanced.exchange_group (by decide) oldBalanced newBalanced)

/-- An exchange in front of a constructor moves it. -/
theorem exchange_before
    (found : FoundAt className text (pre ++ '\x7b' :: (old ++ '\x7d' :: gap)) front body behind) :
    FoundAt className (pre ++ '\x7b' :: (new ++ '\x7d' :: gap) ++ (front ++ '\x7b' ::
      (body ++ '\x7d' :: behind))) (pre ++ '\x7b' :: (new ++ '\x7d' :: gap)) front body behind := by
  have shape : ∀ inside : List Char, pre ++ '\x7b' :: (inside ++ '\x7d' :: gap) ++ (front ++
      '\x7b' :: (body ++ '\x7d' :: behind)) = pre ++ '\x7b' :: (inside ++ '\x7d' :: (gap ++
        (front ++ '\x7b' :: (body ++ '\x7d' :: behind)))) := by
    intro inside
    simp
  have length : ∀ inside : List Char, byteLength (pre ++ '\x7b' :: (inside ++ '\x7d' :: gap)) =
      byteLength pre + byteLength inside + (2 + byteLength gap) := by
    intro inside
    simp only [byteLength_append, byteLength, utf8Size_openingBrace, utf8Size_closingBrace]
    omega
  have text_eq := found.text_eq
  rw [shape] at text_eq
  refine ⟨rfl, found.noBrace, ?_, found.balanced, ?_⟩
  · have passed : ∀ inside : List Char, (pre ++ '\x7b' :: (inside ++ '\x7d' :: gap)).reverse =
        gap.reverse ++ '\x7d' :: (inside.reverse ++ '\x7b' :: pre.reverse) := by
      intro inside
      simp
    have starts := found.starts
    rw [passed] at starts ⊢
    have moved := starts.exchange_before isWordText (new.reverse ++ '\x7b' :: pre.reverse)
    simpa using moved
  · intro start startsNew
    rw [shape] at startsNew
    have reached := found.offsets_of_exchanged isWordText text_eq newFree startsNew
    rw [length] at reached ⊢
    rcases reached with ⟨notLater, inFront⟩ | ⟨further, offset, notLater⟩
    · omega
    · omega

end

section

variable {otherBefore otherFront otherBody otherBehind : List Char}
  (isName : IsClassName className) (otherIsName : IsClassName otherName)
  (found : FoundAt className text before front body behind)
  (other : FoundAt otherName text otherBefore otherFront otherBody otherBehind)

include isName otherIsName found other

/-- Two constructors of different classes do not share their braces: either both the head and the
body of the other one are in front of the head of the first, or it holds the first one, or it
starts behind the closing brace of the first. -/
theorem other_cases (different : className ≠ otherName) (free : HeadFree otherName body) :
    (∃ gap, before ++ front = otherBefore ++ (otherFront ++ '\x7b' :: (otherBody ++ '\x7d' :: gap)) ∧
      otherBehind = gap ++ '\x7b' :: (body ++ '\x7d' :: behind)) ∨
    (∃ gap later, before = otherBefore ++ (otherFront ++ '\x7b' :: gap) ∧
      otherBody = gap ++ (front ++ '\x7b' :: (body ++ '\x7d' :: later)) ∧
        behind = later ++ '\x7d' :: otherBehind) ∨
    ∃ gap, otherBefore = before ++ (front ++ '\x7b' :: (body ++ '\x7d' :: gap)) ∧
      behind = gap ++ (otherFront ++ '\x7b' :: (otherBody ++ '\x7d' :: otherBehind)) := by
  have starts := other.starts
  rw [found.text_eq, ← List.append_assoc] at starts
  rcases place_cases starts.place with ⟨mid, shape, ahead⟩ | ⟨first, second, rfl, ahead, passed⟩ |
    ⟨gap, shape, passed⟩
  · rw [List.reverse_reverse] at shape
    by_cases brace : '\x7b' ∈ mid
    · -- The other head has its brace in front of that of the first: they nest, or they do not meet.
      obtain ⟨stretch, rest, rfl, notFirst⟩ := List.eq_append_cons_of_mem brace
      rw [List.append_assoc] at ahead
      obtain ⟨rfl, inside⟩ := eq_of_first_sign other.noBrace notFirst ahead
      rcases List.append_eq_append_iff.mp inside with ⟨further, rfl, behindOther⟩ |
        ⟨further, rfl, ends⟩
      · cases further with
        | nil => simp at behindOther
        | cons closing gap =>
            rw [List.cons_append, List.cons.injEq] at behindOther
            obtain ⟨rfl, rfl⟩ := behindOther
            exact Or.inl ⟨gap, shape, rfl⟩
      · cases further with
        | nil => simp at ends
        | cons opening further =>
            rw [List.cons_append, List.cons.injEq] at ends
            obtain ⟨rfl, ends⟩ := ends
            have outer := close?_of_balanced (by decide) other.balanced otherBehind
            have inner := close?_of_balanced (by decide) found.balanced behind
            rw [List.append_assoc, List.cons_append] at outer
            rw [ends] at inner
            obtain ⟨later, rfl⟩ := close?_inside outer inner
            have behindEq : behind = later ++ '\x7d' :: otherBehind := by
              simpa using ends
            rw [← List.append_assoc] at shape
            obtain ⟨gap, rfl, rfl⟩ := parts_of_noBrace found.noBrace shape
            exact Or.inr (Or.inl ⟨gap, later, by simp, by simp, behindEq⟩)
    · -- With one brace, both heads would name one class.
      obtain ⟨rfl, sameRest⟩ := eq_of_first_sign other.noBrace brace ahead
      have sameOpened : '\x7b' :: (front.reverse ++ before.reverse) =
          '\x7b' :: (otherFront.reverse ++ otherBefore.reverse) := by
        rw [← List.reverse_append, ← List.reverse_append, shape]
      refine (different ?_).elim
      exact (standsIn_of_find? (found.find?_eq isName)).name_eq_of_opened_eq isName otherIsName
        (standsIn_of_find? (other.find?_eq otherIsName))
        (congrArg₂ Cursor.mk sameOpened sameRest.symm)
  · simp only at ahead passed
    rw [ahead, passed] at starts
    exact (free.not_startsAt otherIsName.isWordText starts).elim
  · refine Or.inr (Or.inr ⟨gap, ?_, shape⟩)
    have backwards := congrArg List.reverse passed
    simpa using backwards

variable {new : List Char} (different : className ≠ otherName) (free : HeadFree otherName body)
  (newFree : HeadFree otherName new) (balanced : Balanced '\x7b' '\x7d' new)

include different free newFree balanced

/-- The constructor of another class is found with the body it had, unless its body holds the
constructor whose body is exchanged. -/
theorem exchange_other : ∃ newBefore newBody newBehind,
    FoundAt otherName (before ++ (front ++ '\x7b' :: (new ++ '\x7d' :: behind))) newBefore otherFront
        newBody newBehind ∧
      (newBody = otherBody ∨ ¬ HeadFree className otherBody) := by
  have wordText := otherIsName.isWordText
  rcases other_cases isName otherIsName found other different free with
    ⟨gap, inFront, rfl⟩ | ⟨gap, later, rfl, rfl, rfl⟩ | ⟨gap, rfl, rfl⟩
  · have moved := other.exchange_behind wordText newFree
    have text_eq : before ++ (front ++ '\x7b' :: (new ++ '\x7d' :: behind)) = otherBefore ++
        (otherFront ++ '\x7b' :: (otherBody ++ '\x7d' :: (gap ++ '\x7b' :: (new ++ '\x7d' ::
          behind)))) := by
      rw [← List.append_assoc, inFront]
      simp
    exact ⟨_, _, _, text_eq ▸ moved, Or.inl rfl⟩
  · have holds := found
    rw [← List.append_assoc] at holds other
    have moved := other.exchange_within wordText newFree found.balanced balanced
    have text_eq : otherBefore ++ (otherFront ++ '\x7b' :: gap) ++ (front ++ '\x7b' :: (new ++
        '\x7d' :: (later ++ '\x7d' :: otherBehind))) = otherBefore ++ (otherFront ++ '\x7b' ::
          (gap ++ front ++ '\x7b' :: (new ++ '\x7d' :: later) ++ '\x7d' :: otherBehind)) := by
      simp
    exact ⟨_, _, _, text_eq ▸ moved, Or.inr (holds.not_headFree isName.isWordText _)⟩
  · rw [← List.append_assoc] at other
    have moved := other.exchange_before wordText newFree
    have text_eq : before ++ (front ++ '\x7b' :: (new ++ '\x7d' :: (gap ++ (otherFront ++ '\x7b' ::
        (otherBody ++ '\x7d' :: otherBehind))))) = before ++ front ++ '\x7b' :: (new ++ '\x7d' ::
          gap) ++ (otherFront ++ '\x7b' :: (otherBody ++ '\x7d' :: otherBehind)) := by
      simp
    exact ⟨_, _, _, text_eq ▸ moved, Or.inl rfl⟩

omit other in
theorem find?_exchange_none (notFound : find? otherName text = none) :
    find? otherName (before ++ (front ++ '\x7b' :: (new ++ '\x7d' :: behind))) = none := by
  rw [Option.eq_none_iff_forall_ne_some]
  intro after foundAfter
  -- The exchange can be undone, and what is found then was found before.
  obtain ⟨_, _, otherFoundAt⟩ := exists_foundAt otherIsName foundAfter
  obtain ⟨_, _, _, foundBefore, _⟩ := (found.exchange_self isName.isWordText balanced).exchange_other
    isName otherIsName otherFoundAt different newFree free found.balanced
  rw [← found.text_eq] at foundBefore
  rw [foundBefore.find?_eq otherIsName] at notFound
  cases notFound

end

end FoundAt

end Constructor

end ScriptRegistrar
