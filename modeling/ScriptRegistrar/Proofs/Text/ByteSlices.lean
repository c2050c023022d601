import ScriptRegistrar.ClassBody
import ScriptRegistrar.Proofs.Bracketing
import ScriptRegistrar.Proofs.Text.CursorSteps

/-!
# Texts cut at byte offsets

A cut at an offset past the end of a text, or inside a character, is no text.  Cuts at the offsets
of cursors always are.

Brackets can be counted in the bytes of a text: an ASCII character is its own byte, and no byte of
another character is one.  So the bracket that closes another is found at the offset of a cursor.
-/

namespace ScriptRegistrar.Text

open Cursor

/-- The text between two byte offsets; `none` unless both are offsets of places of the text, in
that order. -/
def slice? (text : List Char) (start stop : Nat) : Option (List Char) :=
  if start ≤ stop then
    (atOffset? text start).bind fun first =>
      (advance? [] (stop - start) first.ahead).map fun last => last.passed.reverse
  else none

/-- The text before a byte offset. -/
def sliceTo? (text : List Char) (stop : Nat) : Option (List Char) :=
  slice? text 0 stop

/-- The text from a byte offset on. -/
def sliceFrom? (text : List Char) (start : Nat) : Option (List Char) :=
  (atOffset? text start).map (·.ahead)

@[simp] theorem atOffset?_append (before behind : List Char) :
    atOffset? (before ++ behind) (byteLength before) = some ⟨before.reverse, behind⟩ := by
  have found := advance?_append [] before behind
  rwa [List.append_nil] at found

@[simp] theorem slice?_append (before part behind : List Char) :
    slice? (before ++ (part ++ behind)) (byteLength before) (byteLength before + byteLength part) =
      some part := by
  rw [slice?, if_pos (Nat.le_add_right _ _), atOffset?_append, Option.bind_some,
    Nat.add_sub_cancel_left, advance?_append, Option.map_some, List.append_nil,
    List.reverse_reverse]

section

variable {cursor next : Cursor} {part : List Char}

theorem slice?_of_across (across : Across cursor part next) :
    slice? cursor.text cursor.offset next.offset = some part := by
  have cut := slice?_append cursor.passed.reverse part next.ahead
  rw [byteLength_reverse, ← across.1] at cut
  rw [across.offset_eq]
  exact cut

@[simp] theorem sliceTo?_offset (cursor : Cursor) :
    sliceTo? cursor.text cursor.offset = some cursor.passed.reverse := by
  have across : Across (Cursor.start cursor.text) cursor.passed.reverse cursor :=
    ⟨rfl, by simp [Cursor.start]⟩
  exact slice?_of_across across

@[simp] theorem sliceFrom?_offset (cursor : Cursor) :
    sliceFrom? cursor.text cursor.offset = some cursor.ahead := by
  simp [sliceFrom?]

end

/-- The bytes of a text. -/
def bytesOf (text : List Char) : List UInt8 :=
  text.flatMap String.utf8EncodeChar

/-- An ASCII character. -/
def IsAscii (character : Char) : Prop :=
  character.toNat < 0x80

instance (character : Char) : Decidable (IsAscii character) :=
  inferInstanceAs (Decidable (_ < _))

theorem utf8EncodeChar_of_isAscii {character : Char} (ascii : IsAscii character) :
    String.utf8EncodeChar character = [character.toUInt8] := by
  have oneByte : character.utf8Size = 1 := by
    rw [Char.utf8Size_eq_one_iff, UInt32.le_iff_toNat_le]
    exact Nat.le_of_lt_succ ascii
  exact String.utf8EncodeChar_eq_singleton oneByte

/-- No byte of another character is that of an ASCII character. -/
theorem le_of_mem_utf8EncodeChar {character : Char} (notAscii : ¬ IsAscii character) {byte : UInt8}
    (member : byte ∈ String.utf8EncodeChar character) : 0x80 ≤ byte.toNat := by
  have high : ¬ character.val.toNat ≤ 0x7F := by
    intro low
    exact notAscii (Nat.lt_succ_of_le low)
  have below : ∀ number, number < 256 → 0x80 ≤ number → 0x80 ≤ (UInt8.ofNat number).toNat := by
    intro number less atLeast
    rw [UInt8.toNat_ofNat', Nat.mod_eq_of_lt less]
    exact atLeast
  unfold String.utf8EncodeChar at member
  simp only [high, if_false] at member
  split at member
  · simp only [List.mem_cons, List.not_mem_nil, or_false] at member
    rcases member with rfl | rfl <;> exact below _ (by omega) (by omega)
  · split at member
    · simp only [List.mem_cons, List.not_mem_nil, or_false] at member
      rcases member with rfl | rfl | rfl <;> exact below _ (by omega) (by omega)
    · simp only [List.mem_cons, List.not_mem_nil, or_false] at member
      rcases member with rfl | rfl | rfl | rfl <;> exact below _ (by omega) (by omega)

/-- The number of bytes before the one that closes a bracket, with `depth` more brackets open. -/
def closingByte? (opening closing : UInt8) (depth : Nat) : List UInt8 → Option Nat
  | [] => none
  | byte :: rest =>
    if byte = opening then (closingByte? opening closing (depth + 1) rest).map (· + 1)
    else if byte = closing then
      match depth with
      | 0 => some 0
      | depth + 1 => (closingByte? opening closing depth rest).map (· + 1)
    else (closingByte? opening closing depth rest).map (· + 1)

/-- The offset of the byte that closes the bracket at a byte offset; `none` if another byte stands
there or the text ends first. -/
def matchingByte? (opening closing : Char) (text : List Char) (offset : Nat) : Option Nat :=
  match (bytesOf text).drop offset with
  | [] => none
  | byte :: rest =>
    if byte = opening.toUInt8 then
      (closingByte? opening.toUInt8 closing.toUInt8 0 rest).map (offset + 1 + ·)
    else none

section

variable {opening closing next : UInt8}

theorem closingByte?_opening (depth : Nat) (rest : List UInt8) :
    closingByte? opening closing depth (opening :: rest) =
      (closingByte? opening closing (depth + 1) rest).map (· + 1) := by
  cases depth <;> exact if_pos rfl

theorem closingByte?_cons_of_ne (notOpening : next ≠ opening) (notClosing : next ≠ closing)
    (depth : Nat) (rest : List UInt8) :
    closingByte? opening closing depth (next :: rest) =
      (closingByte? opening closing depth rest).map (· + 1) := by
  cases depth <;> simp only [closingByte?, if_neg notOpening, if_neg notClosing]

theorem closingByte?_closing_zero (different : closing ≠ opening) (rest : List UInt8) :
    closingByte? opening closing 0 (closing :: rest) = some 0 := by
  simp only [closingByte?, if_neg different, if_true]

theorem closingByte?_closing_succ (different : closing ≠ opening) (depth : Nat)
    (rest : List UInt8) :
    closingByte? opening closing (depth + 1) (closing :: rest) =
      (closingByte? opening closing depth rest).map (· + 1) := by
  simp only [closingByte?, if_neg different, if_true]

end

theorem toNat_toUInt8 {character : Char} (ascii : IsAscii character) :
    character.toUInt8.toNat = character.toNat := by
  unfold IsAscii at ascii
  rw [Char.toUInt8, UInt32.toNat_toUInt8]
  exact Nat.mod_eq_of_lt (Nat.lt_trans ascii (by decide))

theorem toUInt8_injective {left right : Char} (leftAscii : IsAscii left)
    (rightAscii : IsAscii right) (same : left.toUInt8 = right.toUInt8) : left = right := by
  have values := congrArg UInt8.toNat same
  rw [toNat_toUInt8 leftAscii, toNat_toUInt8 rightAscii] at values
  exact Char.toNat_inj.mp values

@[simp] theorem bytesOf_cons (next : Char) (rest : List Char) :
    bytesOf (next :: rest) = String.utf8EncodeChar next ++ bytesOf rest :=
  List.flatMap_cons

@[simp] theorem bytesOf_append (left right : List Char) :
    bytesOf (left ++ right) = bytesOf left ++ bytesOf right :=
  List.flatMap_append

@[simp] theorem length_bytesOf (text : List Char) : (bytesOf text).length = byteLength text := by
  induction text with
  | nil => rfl
  | cons next rest induction =>
      simp [String.length_utf8EncodeChar, induction]

theorem bytesOf_cons_of_isAscii {next : Char} (ascii : IsAscii next) (rest : List Char) :
    bytesOf (next :: rest) = next.toUInt8 :: bytesOf rest := by
  simp [utf8EncodeChar_of_isAscii ascii]

theorem utf8Size_of_isAscii {next : Char} (ascii : IsAscii next) : next.utf8Size = 1 := by
  rw [← String.length_utf8EncodeChar, utf8EncodeChar_of_isAscii ascii, List.length_singleton]

theorem ne_of_mem_utf8EncodeChar {sign next : Char} (ascii : IsAscii sign) (different : next ≠ sign)
    {byte : UInt8} (member : byte ∈ String.utf8EncodeChar next) : byte ≠ sign.toUInt8 := by
  by_cases nextAscii : IsAscii next
  · rw [utf8EncodeChar_of_isAscii nextAscii, List.mem_singleton] at member
    subst member
    exact fun same => different (toUInt8_injective nextAscii ascii same)
  · have high := le_of_mem_utf8EncodeChar nextAscii member
    rintro rfl
    rw [toNat_toUInt8 ascii] at high
    exact absurd ascii (Nat.not_lt.mpr high)

theorem not_mem_bytesOf {sign : Char} (ascii : IsAscii sign) {text : List Char}
    (absent : sign ∉ text) : sign.toUInt8 ∉ bytesOf text := by
  intro member
  obtain ⟨next, inside, inCode⟩ := List.mem_flatMap.mp member
  have different : next ≠ sign := fun same => absent (same ▸ inside)
  exact ne_of_mem_utf8EncodeChar ascii different inCode rfl

section

variable {opening closing : Char} (openingAscii : IsAscii opening) (closingAscii : IsAscii closing)

include openingAscii closingAscii

/-- The bytes of a character that is no bracket are passed over. -/
theorem closingByte?_utf8EncodeChar {next : Char} (notOpening : next ≠ opening)
    (notClosing : next ≠ closing) (depth : Nat) (rest : List UInt8) :
    closingByte? opening.toUInt8 closing.toUInt8 depth (String.utf8EncodeChar next ++ rest) =
      (closingByte? opening.toUInt8 closing.toUInt8 depth rest).map (· + next.utf8Size) := by
  have others : ∀ byte ∈ String.utf8EncodeChar next,
      byte ≠ opening.toUInt8 ∧ byte ≠ closing.toUInt8 := fun byte member =>
    ⟨ne_of_mem_utf8EncodeChar openingAscii notOpening member,
      ne_of_mem_utf8EncodeChar closingAscii notClosing member⟩
  rw [← String.length_utf8EncodeChar]
  generalize String.utf8EncodeChar next = bytes at others
  induction bytes with
  | nil => simp
  | cons byte more induction =>
      obtain ⟨⟨notOpeningByte, notClosingByte⟩, othersMore⟩ := List.forall_mem_cons.mp others
      rw [List.cons_append, closingByte?_cons_of_ne notOpeningByte notClosingByte,
        induction othersMore, Option.map_map]
      rfl

/-- Counted in bytes, a bracket closes where it closes counted in characters. -/
theorem closingByte?_bytesOf (different : closing ≠ opening) (depth : Nat) (text : List Char) :
    closingByte? opening.toUInt8 closing.toUInt8 depth (bytesOf text) =
      (Bracketed.close? opening closing depth text).map fun parts => byteLength parts.1 := by
  induction text generalizing depth with
  | nil => rfl
  | cons next rest induction =>
      have longer : ∀ deeper, ((Bracketed.close? opening closing deeper rest).map
          (Bracketed.prepend [next])).map (fun parts => byteLength parts.1) =
          (closingByte? opening.toUInt8 closing.toUInt8 deeper (bytesOf rest)).map
            (· + next.utf8Size) := by
        intro deeper
        rw [induction, Option.map_map, Option.map_map]
        congr 1
        funext parts
        simp only [Function.comp_apply, Bracketed.prepend, List.singleton_append, byteLength]
        omega
      by_cases isOpening : next = opening
      · subst isOpening
        rw [Bracketed.close?_opening, longer, utf8Size_of_isAscii openingAscii,
          bytesOf_cons_of_isAscii openingAscii, closingByte?_opening]
      · by_cases isClosing : next = closing
        · subst isClosing
          have apart : next.toUInt8 ≠ opening.toUInt8 := fun same =>
            different (toUInt8_injective closingAscii openingAscii same)
          rw [bytesOf_cons_of_isAscii closingAscii]
          cases depth with
          | zero =>
              rw [Bracketed.close?_closing_zero different, closingByte?_closing_zero apart]
              rfl
          | succ depth =>
              rw [Bracketed.close?_closing_succ different, longer,
                utf8Size_of_isAscii closingAscii, closingByte?_closing_succ apart]
        · rw [Bracketed.close?_cons_of_ne isOpening isClosing, longer, bytesOf_cons,
            closingByte?_utf8EncodeChar openingAscii closingAscii isOpening isClosing]

end

/-- From the offset of a place on stand the bytes of the text ahead. -/
theorem drop_bytesOf {passed text : List Char} {offset : Nat} {cursor : Cursor}
    (found : advance? passed offset text = some cursor) :
    (bytesOf text).drop offset = bytesOf cursor.ahead := by
  induction text generalizing passed offset with
  | nil =>
      rw [advance?] at found
      split at found
      · cases found
        exact List.drop_nil
      · cases found
  | cons next rest induction =>
      rw [advance?] at found
      split at found
      · rename_i atStart
        cases found
        rw [atStart, List.drop_zero]
      · split at found
        · rename_i beyond
          rw [bytesOf_cons, List.drop_append, String.length_utf8EncodeChar,
            List.drop_of_length_le (by rwa [String.length_utf8EncodeChar]), List.nil_append]
          exact induction found
        · cases found

/-- At another offset either the text has ended, or a byte follows that is not ASCII. -/
theorem head?_drop_bytesOf {passed text : List Char} {offset : Nat}
    (notFound : advance? passed offset text = none) :
    ∀ byte ∈ ((bytesOf text).drop offset).head?, 0x80 ≤ byte.toNat := by
  induction text generalizing passed offset with
  | nil => simp [bytesOf]
  | cons next rest induction =>
      rw [advance?] at notFound
      split at notFound
      · cases notFound
      · rename_i notStart
        split at notFound
        · rename_i beyond
          rw [bytesOf_cons, List.drop_append, String.length_utf8EncodeChar,
            List.drop_of_length_le (by rwa [String.length_utf8EncodeChar]), List.nil_append]
          exact induction notFound
        · rename_i inside
          have notAscii : ¬ IsAscii next := fun ascii =>
            absurd (utf8Size_of_isAscii ascii) (by omega)
          intro byte member
          rw [bytesOf_cons, List.drop_append, List.head?_append] at member
          cases more : (String.utf8EncodeChar next).drop offset with
          | nil =>
              have short := List.drop_eq_nil_iff.mp more
              rw [String.length_utf8EncodeChar] at short
              exact absurd short inside
          | cons first others =>
              rw [more, List.head?_cons, Option.some_or, Option.mem_some_iff] at member
              subst member
              apply le_of_mem_utf8EncodeChar notAscii
              apply List.mem_of_mem_drop
              rw [more]
              exact List.mem_cons_self

/-- The byte that closes the one at an offset stands where the character does that closes the one
at the offset. -/
theorem matchingByte?_eq {opening closing : Char} (openingAscii : IsAscii opening)
    (closingAscii : IsAscii closing) (different : closing ≠ opening) (text : String)
    (offset : Nat) :
    matchingByte? opening closing text.toList offset =
      ClassBody.closingOffset? opening closing text offset := by
  rw [matchingByte?, ClassBody.closingOffset?, atOffset?]
  cases found : advance? [] offset text.toList with
  | none =>
      have high := head?_drop_bytesOf found
      cases rest : (bytesOf text.toList).drop offset with
      | nil => rfl
      | cons byte others =>
          rw [rest] at high
          have notOpening : byte ≠ opening.toUInt8 := by
            rintro rfl
            have atLeast := high _ rfl
            rw [toNat_toUInt8 openingAscii] at atLeast
            exact absurd openingAscii (Nat.not_lt.mpr atLeast)
          exact if_neg notOpening
  | some cursor =>
      rw [drop_bytesOf found]
      cases shape : cursor.ahead with
      | nil => simp [bytesOf, shape]
      | cons next rest =>
          simp only [Option.bind_eq_bind, Option.bind_some, shape]
          by_cases isOpening : next = opening
          · subst isOpening
            rw [bytesOf_cons_of_isAscii openingAscii, if_pos rfl]
            simp only [if_pos,
              closingByte?_bytesOf openingAscii closingAscii different, Option.map_map,
              utf8Size_of_isAscii openingAscii]
            cases Bracketed.close? next closing 0 rest <;> rfl
          · rw [if_neg isOpening, bytesOf_cons]
            cases code : String.utf8EncodeChar next with
            | nil => exact absurd code (by simp)
            | cons byte others =>
                have inCode : byte ∈ String.utf8EncodeChar next := by
                  rw [code]
                  exact List.mem_cons_self
                exact if_neg (ne_of_mem_utf8EncodeChar openingAscii isOpening inCode)

end ScriptRegistrar.Text
