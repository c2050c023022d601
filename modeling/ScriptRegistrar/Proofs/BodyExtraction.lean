import ScriptRegistrar.Proofs.SlicedScan
import ScriptRegistrar.Proofs.Text.ByteCounts

/-!
# What a body is cut at

A bracket is closed at the first byte offset behind it up to which as many brackets close as open,
counted in the bytes of the text.  The body of a class stands between the first brace that opens
at or behind an offset and the brace that closes it, so it is balanced, and it is missing only
where no brace opens or where the brace is never closed.
-/

namespace ScriptRegistrar

open Text Text.Cursor Bracketed

namespace Text

/-- Whether a byte offset is that of a place of a text. -/
def IsPlace (text : String) (offset : Nat) : Prop :=
  ∃ before behind, text.toList = before ++ behind ∧ byteLength before = offset

/-- Whether the byte of a sign stands at an offset of a text. -/
def StandsAt (text : String) (sign : Char) (offset : Nat) : Prop :=
  (bytesOf text.toList)[offset]? = some sign.toUInt8

instance (text : String) (sign : Char) (offset : Nat) : Decidable (StandsAt text sign offset) :=
  inferInstanceAs (Decidable (_ = _))

/-- How often the byte of a sign stands at the offsets of a text from one through another. -/
def countThrough (text : String) (sign : Char) (first last : Nat) : Nat :=
  (((bytesOf text.toList).drop first).take (last + 1 - first)).count sign.toUInt8

/-- Whether from an offset through one behind it as many brackets open as close. -/
structure IsClosedAt (opening closing : Char) (text : String) (first last : Nat) : Prop where
  behind : first < last
  inside : last < (bytesOf text.toList).length
  level : countThrough text opening first last = countThrough text closing first last

/-- The search for the bracket that closes the one at an offset, with a counter for the open ones;
`none` if the counter would fall below zero. -/
def countedOffset? (opening closing : Char) (text : String) (offset : Nat) :
    Option (Option Nat) :=
  if StandsAt text opening offset then
    countedClosing? opening.toUInt8 closing.toUInt8 0 offset ((bytesOf text.toList).drop offset)
  else some none

/-- Whether a search finds the offset at which the bracket at another offset is closed. -/
structure FindsClosing (opening closing : Char) (search : String → Nat → Option Nat) : Prop where
  some_iff : ∀ text offset last, search text offset = some last ↔
    StandsAt text opening offset ∧ IsLeast {place | IsClosedAt opening closing text offset place} last
  none_iff : ∀ text offset, search text offset = none ↔
    ¬ StandsAt text opening offset ∨ ∀ last, ¬ IsClosedAt opening closing text offset last
  closes : ∀ text offset last, search text offset = some last → StandsAt text closing last
  openBefore : ∀ text offset last, search text offset = some last → ∀ middle, offset ≤ middle →
    middle < last → countThrough text closing offset middle < countThrough text opening offset middle
  counts : ∀ text offset, countedOffset? opening closing text offset = some (search text offset)

section

variable {opening closing : Char} {text : String} {offset : Nat} {rest : List UInt8}

theorem exists_drop_of_standsAt (stands : StandsAt text opening offset) :
    ∃ rest, (bytesOf text.toList).drop offset = opening.toUInt8 :: rest := by
  obtain ⟨inside, same⟩ := List.getElem?_eq_some_iff.mp stands
  exact ⟨_, (List.drop_eq_getElem_cons inside).trans (by rw [same])⟩

theorem matchingByte?_of_not_standsAt (absent : ¬ StandsAt text opening offset) :
    matchingByte? opening closing text.toList offset = none := by
  rw [matchingByte?]
  split
  · rfl
  · rename_i byte rest shape
    have first : (bytesOf text.toList)[offset]? = some byte := by
      rw [← List.head?_drop, shape, List.head?_cons]
    refine if_neg fun same => absent ?_
    rw [StandsAt, first, same]

variable (bytes : (bytesOf text.toList).drop offset = opening.toUInt8 :: rest)

include bytes

theorem standsAt_of_drop : StandsAt text opening offset := by
  rw [StandsAt, ← List.head?_drop, bytes, List.head?_cons]

theorem getElem?_of_drop (place : Nat) :
    (bytesOf text.toList)[offset + 1 + place]? = rest[place]? := by
  have behind := congrArg (fun bytes : List UInt8 => bytes[place + 1]?) bytes
  simp only [List.getElem?_drop, List.getElem?_cons_succ] at behind
  rwa [show offset + 1 + place = offset + (place + 1) by omega]

theorem matchingByte?_of_drop :
    matchingByte? opening closing text.toList offset =
      (closingByte? opening.toUInt8 closing.toUInt8 0 rest).map (offset + 1 + ·) := by
  rw [matchingByte?, bytes]
  exact if_pos rfl

theorem countThrough_of_drop (sign : Char) {last : Nat} (behind : offset ≤ last) :
    countThrough text sign offset last =
      (rest.take (last - offset)).count sign.toUInt8 + [opening.toUInt8].count sign.toUInt8 := by
  have next : last + 1 - offset = last - offset + 1 := by omega
  rw [countThrough, bytes, next, List.take_succ_cons, ← List.singleton_append, List.count_append,
    Nat.add_comm]

variable (different : closing.toUInt8 ≠ opening.toUInt8)

include different

theorem isClosedAt_iff_isLevel (place : Nat) :
    IsClosedAt opening closing text offset (offset + 1 + place) ↔
      IsLevel opening.toUInt8 closing.toUInt8 0 rest place := by
  have counts := fun sign => countThrough_of_drop bytes sign
    (show offset ≤ offset + 1 + place by omega)
  have length := congrArg List.length bytes
  have next : offset + 1 + place - offset = place + 1 := by omega
  have openings : [opening.toUInt8].count opening.toUInt8 = 1 := by simp
  have closings : [opening.toUInt8].count closing.toUInt8 = 0 := by simp [different.symm]
  rw [List.length_drop, List.length_cons] at length
  constructor
  · rintro ⟨_, inside, level⟩
    rw [counts, counts, next] at level
    exact ⟨by omega, by omega⟩
  · rintro ⟨inside, level⟩
    refine ⟨by omega, by omega, ?_⟩
    rw [counts, counts, next]
    omega

theorem exists_isLevel_of_isClosedAt {last : Nat}
    (closed : IsClosedAt opening closing text offset last) :
    ∃ place, last = offset + 1 + place ∧
      IsLevel opening.toUInt8 closing.toUInt8 0 rest place := by
  obtain ⟨place, rfl⟩ := Nat.exists_eq_add_of_lt closed.behind
  rw [Nat.add_right_comm] at closed ⊢
  exact ⟨place, rfl, (isClosedAt_iff_isLevel bytes different place).mp closed⟩

theorem isLeast_isClosedAt_iff (last : Nat) :
    IsLeast {place | IsClosedAt opening closing text offset place} last ↔
      ∃ place, IsLeast {place | IsLevel opening.toUInt8 closing.toUInt8 0 rest place} place ∧
        offset + 1 + place = last := by
  have levels := isClosedAt_iff_isLevel bytes different
  constructor
  · rintro ⟨closed, least⟩
    obtain ⟨place, rfl, level⟩ := exists_isLevel_of_isClosedAt bytes different closed
    refine ⟨place, ⟨level, ?_⟩, rfl⟩
    intro other otherLevel
    exact Nat.le_of_add_le_add_left (least ((levels other).mpr otherLevel))
  · rintro ⟨place, ⟨level, least⟩, rfl⟩
    refine ⟨(levels place).mpr level, ?_⟩
    intro other closed
    obtain ⟨otherPlace, rfl, otherLevel⟩ := exists_isLevel_of_isClosedAt bytes different closed
    exact Nat.add_le_add_left (least otherLevel) _

end

end Text

namespace ClassBody

section

variable {opening closing : Char} (openingAscii : IsAscii opening) (closingAscii : IsAscii closing)
  (different : closing ≠ opening)

include openingAscii closingAscii different

theorem toUInt8_ne : closing.toUInt8 ≠ opening.toUInt8 :=
  fun same => different (toUInt8_injective closingAscii openingAscii same)

theorem closingOffset?_cases (text : String) (offset : Nat) :
    (¬ StandsAt text opening offset ∧ closingOffset? opening closing text offset = none) ∨
    ∃ rest, (bytesOf text.toList).drop offset = opening.toUInt8 :: rest ∧
      closingOffset? opening closing text offset =
        (closingByte? opening.toUInt8 closing.toUInt8 0 rest).map (offset + 1 + ·) := by
  have search := matchingByte?_eq openingAscii closingAscii different text offset
  by_cases stands : StandsAt text opening offset
  · obtain ⟨rest, bytes⟩ := exists_drop_of_standsAt stands
    exact Or.inr ⟨rest, bytes, search.symm.trans (matchingByte?_of_drop bytes)⟩
  · exact Or.inl ⟨stands, search.symm.trans (matchingByte?_of_not_standsAt stands)⟩

theorem exists_of_closingOffset? {text : String} {offset last : Nat}
    (found : closingOffset? opening closing text offset = some last) :
    ∃ rest place, (bytesOf text.toList).drop offset = opening.toUInt8 :: rest ∧
      IsLeast {place | IsLevel opening.toUInt8 closing.toUInt8 0 rest place} place ∧
      offset + 1 + place = last := by
  have apart := toUInt8_ne openingAscii closingAscii different
  rcases closingOffset?_cases openingAscii closingAscii different text offset with
    ⟨_, nothing⟩ | ⟨rest, bytes, search⟩
  · rw [nothing] at found
    cases found
  · rw [search] at found
    obtain ⟨place, closing, same⟩ := Option.map_eq_some_iff.mp found
    exact ⟨rest, place, bytes, (closingByte?_eq_some_iff apart).mp closing, same⟩

theorem closingOffset?_eq_some_iff (text : String) (offset last : Nat) :
    closingOffset? opening closing text offset = some last ↔ StandsAt text opening offset ∧
      IsLeast {place | IsClosedAt opening closing text offset place} last := by
  have apart := toUInt8_ne openingAscii closingAscii different
  constructor
  · intro found
    obtain ⟨rest, place, bytes, least, same⟩ :=
      exists_of_closingOffset? openingAscii closingAscii different found
    exact ⟨standsAt_of_drop bytes,
      (isLeast_isClosedAt_iff bytes apart last).mpr ⟨place, least, same⟩⟩
  · rintro ⟨stands, least⟩
    rcases closingOffset?_cases openingAscii closingAscii different text offset with
      ⟨absent, _⟩ | ⟨rest, bytes, search⟩
    · exact (absent stands).elim
    · obtain ⟨place, leastPlace, same⟩ := (isLeast_isClosedAt_iff bytes apart last).mp least
      rw [search, (closingByte?_eq_some_iff apart).mpr leastPlace, Option.map_some, same]

theorem closingOffset?_eq_none_iff (text : String) (offset : Nat) :
    closingOffset? opening closing text offset = none ↔
      ¬ StandsAt text opening offset ∨ ∀ last, ¬ IsClosedAt opening closing text offset last := by
  have apart := toUInt8_ne openingAscii closingAscii different
  rcases closingOffset?_cases openingAscii closingAscii different text offset with
    ⟨absent, nothing⟩ | ⟨rest, bytes, search⟩
  · exact ⟨fun _ => Or.inl absent, fun _ => nothing⟩
  · rw [search, Option.map_eq_none_iff, closingByte?_eq_none_iff apart]
    constructor
    · intro nowhere
      refine Or.inr fun last closed => ?_
      obtain ⟨place, _, level⟩ := exists_isLevel_of_isClosedAt bytes apart closed
      exact nowhere place level
    · rintro (absent | nowhere) place level
      · exact absent (standsAt_of_drop bytes)
      · exact nowhere _ ((isClosedAt_iff_isLevel bytes apart place).mpr level)

/-- In front of the closing bracket more brackets are opened than closed. -/
theorem countThrough_lt_of_closingOffset? {text : String} {offset last middle : Nat}
    (found : closingOffset? opening closing text offset = some last) (behind : offset ≤ middle)
    (before : middle < last) :
    countThrough text closing offset middle < countThrough text opening offset middle := by
  have apart := toUInt8_ne openingAscii closingAscii different
  obtain ⟨rest, place, bytes, least, rfl⟩ :=
    exists_of_closingOffset? openingAscii closingAscii different found
  have atMost := @count_take_le opening.toUInt8 closing.toUInt8 0 rest (middle - offset)
    fun other less level => absurd (least.2 level) (by omega)
  have openings : [opening.toUInt8].count opening.toUInt8 = 1 := by simp
  have closings : [opening.toUInt8].count closing.toUInt8 = 0 := by simp [apart.symm]
  rw [countThrough_of_drop bytes _ behind, countThrough_of_drop bytes _ behind]
  omega

@[simp] theorem countedOffset?_eq (text : String) (offset : Nat) :
    countedOffset? opening closing text offset =
      some (closingOffset? opening closing text offset) := by
  have apart := toUInt8_ne openingAscii closingAscii different
  rcases closingOffset?_cases openingAscii closingAscii different text offset with
    ⟨absent, nothing⟩ | ⟨rest, bytes, search⟩
  · rw [nothing]
    exact if_neg absent
  · rw [search, countedOffset?, if_pos (standsAt_of_drop bytes), bytes, countedClosing?.eq_def]
    simp only [if_true, Nat.zero_add]
    exact countedClosing?_eq apart 0 (offset + 1) rest

theorem findsClosing_closingOffset? :
    FindsClosing opening closing (closingOffset? opening closing) where
  some_iff := closingOffset?_eq_some_iff openingAscii closingAscii different
  none_iff := closingOffset?_eq_none_iff openingAscii closingAscii different
  closes text offset last found := by
    obtain ⟨rest, place, bytes, least, rfl⟩ :=
      exists_of_closingOffset? openingAscii closingAscii different found
    rw [StandsAt, getElem?_of_drop bytes]
    exact getElem?_of_isLeast least
  openBefore _ _ _ found _ :=
    countThrough_lt_of_closingOffset? openingAscii closingAscii different found
  counts := countedOffset?_eq openingAscii closingAscii different

end

/-- Whether a brace opens at or behind a byte offset of a text.  Behind an offset that is none of a
place no brace does. -/
structure OpensBehind (text : String) (offset place : Nat) : Prop where
  isPlace : IsPlace text offset
  behind : offset ≤ place
  stands : StandsAt text '\x7b' place

theorem not_opensBehind {text : String} {cursor : Cursor} (sameText : cursor.text = text.toList)
    (absent : '\x7b' ∉ cursor.ahead) (place : Nat) : ¬ OpensBehind text cursor.offset place := by
  rintro ⟨_, behind, stands⟩
  have found := atOffset?_offset cursor
  rw [sameText] at found
  obtain ⟨gap, rfl⟩ := Nat.exists_eq_add_of_le behind
  rw [StandsAt, ← List.getElem?_drop, drop_bytesOf found] at stands
  exact not_mem_bytesOf isAscii_braces.1 absent (List.mem_of_getElem? stands)

theorem isLeast_opensBehind {text : String} {cursor : Cursor} (sameText : cursor.text = text.toList)
    {before rest : List Char} (notBefore : '\x7b' ∉ before)
    (ahead : cursor.ahead = before ++ '\x7b' :: rest) :
    IsLeast {place | OpensBehind text cursor.offset place}
      (byteLength (before.reverse ++ cursor.passed)) := by
  have found := atOffset?_offset cursor
  rw [sameText] at found
  have bytes : (bytesOf text.toList).drop cursor.offset =
      bytesOf before ++ '\x7b'.toUInt8 :: bytesOf rest := by
    simp [drop_bytesOf found, ahead, bytesOf_cons_of_isAscii isAscii_braces.1]
  have first : byteLength (before.reverse ++ cursor.passed) =
      cursor.offset + (bytesOf before).length := by
    simp [Cursor.offset, Nat.add_comm]
  rw [first]
  refine ⟨⟨⟨cursor.passed.reverse, cursor.ahead, sameText.symm, byteLength_reverse _⟩,
    Nat.le_add_right _ _, ?_⟩, ?_⟩
  · rw [StandsAt, ← List.getElem?_drop, bytes]
    simp
  · rintro place ⟨_, behind, stands⟩
    obtain ⟨gap, rfl⟩ := Nat.exists_eq_add_of_le behind
    rcases Nat.lt_or_ge gap (bytesOf before).length with inside | beyond
    · rw [StandsAt, ← List.getElem?_drop, bytes, List.getElem?_append_left inside] at stands
      exact (not_mem_bytesOf isAscii_braces.1 notBefore (List.mem_of_getElem? stands)).elim
    · exact Nat.add_le_add_left beyond _

/-- What is found behind a byte offset is decided by the first brace that opens behind it. -/
theorem extract_cases (text className : String) (offset : Nat) :
    ((∀ place, ¬ OpensBehind text offset place) ∧
      extract text className offset = .error (.missingBody className)) ∨
    ∃ first, IsLeast {place | OpensBehind text offset place} first ∧
      ((matchingBrace? text first = none ∧
        extract text className offset = .error (.unbalancedBraces className)) ∨
      ∃ body, extract text className offset = .ok body ∧ body.opening = first ∧
        matchingBrace? text first = some (body.stop - 1) ∧
        Text.slice? text.toList (first + 1) (body.stop - 1) = some body.text ∧
        openBehind? '\x7b' '\x7d' 0 body.text = some 0) := by
  cases found : atOffset? text.toList offset with
  | none =>
      refine Or.inl ⟨?_, by rw [extract, found]⟩
      rintro place ⟨⟨before, behind, parts, rfl⟩, _⟩
      rw [parts, atOffset?_append] at found
      cases found
  | some cursor =>
      obtain ⟨between, across, rfl⟩ := across_of_advance? found
      have sameText : cursor.text = text.toList := across.text_eq
      have offset : cursor.offset = byteLength between := by
        simpa [Cursor.offset, byteLength] using across.offset_eq
      have reads : extract text className (byteLength between) = after className cursor := by
        rw [extract, found]
      rw [reads, ← offset]
      rcases after_cases className cursor with
        ⟨absent, missing⟩ | ⟨before, rest, notBefore, ahead, shape⟩
      · exact Or.inl ⟨not_opensBehind sameText absent, missing⟩
      · refine Or.inr ⟨_, isLeast_opensBehind sameText notBefore ahead, ?_⟩
        have toBrace : Across cursor before ⟨before.reverse ++ cursor.passed, '\x7b' :: rest⟩ :=
          ⟨ahead, rfl⟩
        have braceText := toBrace.text_eq.trans sameText
        have matching := @matchingByte?_offset _ _ isAscii_braces.1 isAscii_braces.2 (by decide)
          (before.reverse ++ cursor.passed) rest
        rw [braceText, matchingByte?_eq isAscii_braces.1 isAscii_braces.2 (by decide)] at matching
        rw [shape, matchingBrace?, matching, braces?]
        cases closed : close? '\x7b' '\x7d' 0 rest with
        | none => exact Or.inl ⟨rfl, rfl⟩
        | some parts =>
            obtain ⟨inside, behind⟩ := parts
            obtain ⟨cut, _, _⟩ := @slices_of_close? _ _ isAscii_braces.1 isAscii_braces.2
              (before.reverse ++ cursor.passed) _ _ _ closed
            rw [braceText] at cut
            have stop : ∀ opening, stop ⟨inside, opening,
                ⟨'\x7d' :: inside.reverse ++ '\x7b' :: (before.reverse ++ cursor.passed), behind⟩⟩ =
                byteLength (before.reverse ++ cursor.passed) + 1 + byteLength inside + 1 :=
              fun _ => byteLength_braces inside _
            refine Or.inr ⟨_, rfl, rfl, ?_, ?_, openBehind?_of_close? (by decide) closed⟩
            · rw [stop]
              rfl
            · rw [stop]
              exact cut

/-- A balanced text has no first part that closes more brackets than it opens. -/
theorem count_le_of_openBehind? {opening closing : Char} (different : closing ≠ opening)
    {text : List Char} (balanced : openBehind? opening closing 0 text = some 0) :
    text.count opening = text.count closing ∧
      ∀ start, start <+: text → start.count closing ≤ start.count opening := by
  constructor
  · have counted := count_of_openBehind? different balanced
    omega
  · rintro start ⟨rest, rfl⟩
    rw [openBehind?_append] at balanced
    obtain ⟨depth, isOpen, _⟩ := Option.bind_eq_some_iff.mp balanced
    have counted := count_of_openBehind? different isOpen
    omega

/-- Bodies are extracted exactly.  The brace and the parenthesis that close others are found where
the counts in the bytes agree first, with a counter that does not fall below zero.  A body is found
behind a byte offset if and only if a brace opens there and the first that does is closed; the
failures tell which of the two does not hold. -/
theorem extract_exact :
    FindsClosing '\x7b' '\x7d' matchingBrace? ∧
    FindsClosing '(' ')' matchingParenthesis? ∧
    ∀ text className offset,
      ((∃ body, extract text className offset = .ok body) ↔
        ∃ first, IsLeast {place | OpensBehind text offset place} first ∧
          ∃ last, IsClosedAt '\x7b' '\x7d' text first last) ∧
      (extract text className offset = .error (.missingBody className) ↔
        ∀ place, ¬ OpensBehind text offset place) ∧
      (extract text className offset = .error (.unbalancedBraces className) ↔
        ∃ first, IsLeast {place | OpensBehind text offset place} first ∧
          ∀ last, ¬ IsClosedAt '\x7b' '\x7d' text first last) ∧
      ∀ body, extract text className offset = .ok body →
        IsLeast {place | OpensBehind text offset place} body.opening ∧
        IsLeast {last | IsClosedAt '\x7b' '\x7d' text body.opening last} (body.stop - 1) ∧
        StandsAt text '\x7d' (body.stop - 1) ∧
        Text.slice? text.toList (body.opening + 1) (body.stop - 1) = some body.text ∧
        body.text.count '\x7b' = body.text.count '\x7d' ∧
        ∀ start, start <+: body.text → start.count '\x7d' ≤ start.count '\x7b' := by
  have braces : FindsClosing '\x7b' '\x7d' matchingBrace? :=
    findsClosing_closingOffset? isAscii_braces.1 isAscii_braces.2 (by decide)
  have parentheses : FindsClosing '(' ')' matchingParenthesis? :=
    findsClosing_closingOffset? isAscii_parentheses.1 isAscii_parentheses.2 (by decide)
  refine ⟨braces, parentheses, ?_⟩
  intro text className offset
  rcases extract_cases text className offset with
    ⟨nowhere, missing⟩ | ⟨first, least, found⟩
  · have absurdFirst : ∀ {first}, IsLeast {place | OpensBehind text offset place} first → False :=
      fun least => nowhere _ least.1
    rw [missing]
    refine ⟨⟨?_, fun ⟨_, least, _⟩ => (absurdFirst least).elim⟩, ⟨fun _ => nowhere, fun _ => rfl⟩,
      ⟨?_, fun ⟨_, least, _⟩ => (absurdFirst least).elim⟩, ?_⟩
    · rintro ⟨_, ⟨⟩⟩
    · rintro ⟨⟩
    · rintro _ ⟨⟩
  · have opens := least.1
    have onlyFirst : ∀ {other}, IsLeast {place | OpensBehind text offset place} other →
        other = first := fun otherLeast => otherLeast.unique least
    rcases found with ⟨notFound, unbalanced⟩ | ⟨body, read, rfl, found, cut, balanced⟩
    · have neverClosed : ∀ last, ¬ IsClosedAt '\x7b' '\x7d' text first last :=
        ((braces.none_iff text first).mp notFound).resolve_left fun absent => absent opens.stands
      rw [unbalanced]
      refine ⟨⟨?_, ?_⟩, ⟨?_, fun nowhere => (nowhere first opens).elim⟩,
        ⟨fun _ => ⟨first, least, neverClosed⟩, fun _ => rfl⟩, ?_⟩
      · rintro ⟨_, ⟨⟩⟩
      · rintro ⟨other, otherLeast, last, closed⟩
        rw [onlyFirst otherLeast] at closed
        exact (neverClosed last closed).elim
      · rintro ⟨⟩
      · rintro _ ⟨⟩
    · have leastClosing := ((braces.some_iff text body.opening _).mp found).2
      rw [read]
      refine ⟨⟨fun _ => ⟨_, least, _, leastClosing.1⟩, fun _ => ⟨body, rfl⟩⟩,
        ⟨?_, fun nowhere => (nowhere _ opens).elim⟩, ⟨?_, ?_⟩, ?_⟩
      · rintro ⟨⟩
      · rintro ⟨⟩
      · rintro ⟨other, otherLeast, neverClosed⟩
        rw [onlyFirst otherLeast] at neverClosed
        exact (neverClosed _ leastClosing.1).elim
      · rintro _ ⟨⟩
        exact ⟨least, leastClosing, braces.closes text _ _ found, cut,
          count_le_of_openBehind? (by decide) balanced⟩

/-- The brace inside the body is closed before it, and offset 1 lies inside a character. -/
theorem extract_exact_door :
    let text := "é\x7ba\x7b\x7db\x7d"
    let body : ClassBody := ⟨"a\x7b\x7db".toList, 2, ⟨text.toList.reverse, []⟩⟩
    extract text "Door" 0 = .ok body ∧
      IsLeast {last | IsClosedAt '\x7b' '\x7d' text 2 last} 7 ∧
      Text.slice? text.toList 3 7 = some body.text ∧
      ∀ place, ¬ OpensBehind text 1 place := by
  intro text body
  have read : extract text "Door" 0 = .ok body := by decide +kernel
  have missing : extract text "Door" 1 = .error (.missingBody "Door") := by decide +kernel
  have stop : body.stop - 1 = 7 := by decide +kernel
  obtain ⟨_, _, exact⟩ := extract_exact
  obtain ⟨_, least, _, cut, _⟩ := (exact text "Door" 0).2.2.2 body read
  rw [stop] at least cut
  exact ⟨read, least, cut, (exact text "Door" 1).2.1.mp missing⟩

end ClassBody

end ScriptRegistrar
