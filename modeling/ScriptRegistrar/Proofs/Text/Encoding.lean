import Mathlib.Tactic.SplitIfs
import ScriptRegistrar.Text.Utf8

/-!
# Decoding what was encoded

The bytes of a text decode to the text.  Each character is decoded from its own bytes: the first
byte says how many are to come and bounds the second, which leaves out what encodes no character,
and every later byte adds its six bits.
-/

namespace ScriptRegistrar.Text.Utf8

theorem partsFrom_character {byte : UInt8} {character : Char} (rest : List UInt8)
    (starts : start byte = .character character) :
    partsFrom none (byte :: rest) = some character :: partsFrom none rest := by
  simp [partsFrom, starts]

theorem partsFrom_lead {byte : UInt8} {unfinished : Unfinished} (rest : List UInt8)
    (starts : start byte = .unfinished unfinished) :
    partsFrom none (byte :: rest) = partsFrom (some unfinished) rest := by
  simp [partsFrom, starts]

section

variable {byte : UInt8} {value missing lower upper bits : Nat} (rest : List UInt8)
  (isByte : byte.toNat = bits + 0x80) (least : lower ≤ bits + 0x80)
  (greatest : bits + 0x80 ≤ upper)

include isByte least greatest

theorem partsFrom_more (more : ¬ missing ≤ 1) :
    partsFrom (some ⟨value, missing, lower, upper⟩) (byte :: rest) =
      partsFrom (some ⟨64 * value + bits, missing - 1, 0x80, 0xBF⟩) rest := by
  simp [partsFrom, Option.filter, Unfinished.accepts, Unfinished.extend, isByte, least, greatest,
    more]

theorem partsFrom_last :
    partsFrom (some ⟨value, 1, lower, upper⟩) (byte :: rest) =
      some (Char.ofNat (64 * value + bits)) :: partsFrom none rest := by
  simp [partsFrom, Option.filter, Unfinished.accepts, Unfinished.extend, isByte, least, greatest]

end

/-- What the first byte of a character of several bytes starts. -/
theorem start_lead {byte : UInt8} {number : Nat} (isByte : byte.toNat = number)
    (low : 0xC2 ≤ number) (high : number ≤ 0xF4) :
    start byte = .unfinished (
      if number < 0xE0 then ⟨number - 0xC0, 1, 0x80, 0xBF⟩
      else if number < 0xF0 then
        ⟨number - 0xE0, 2, if number = 0xE0 then 0xA0 else 0x80,
          if number = 0xED then 0x9F else 0xBF⟩
      else ⟨number - 0xF0, 3, if number = 0xF0 then 0x90 else 0x80,
          if number = 0xF4 then 0x8F else 0xBF⟩) := by
  simp only [start, isByte]
  split_ifs <;> first | omega | simp_all

theorem toNat_ofNat {number : Nat} (less : number < 256) : (UInt8.ofNat number).toNat = number := by
  rw [UInt8.toNat_ofNat']
  exact Nat.mod_eq_of_lt less

/-- A character is decoded from its bytes. -/
@[simp] theorem partsFrom_utf8EncodeChar (character : Char) (rest : List UInt8) :
    partsFrom none (String.utf8EncodeChar character ++ rest) =
      some character :: partsFrom none rest := by
  have back : Char.ofNat character.val.toNat = character := Char.ofNat_toNat character
  have valid : character.val.toNat < 0xD800 ∨
      0xDFFF < character.val.toNat ∧ character.val.toNat < 0x110000 := character.valid
  unfold String.utf8EncodeChar
  generalize character.val.toNat = value at back valid
  simp only
  split
  · rename_i oneByte
    refine partsFrom_character rest ?_
    rw [start, toNat_ofNat (by omega), if_pos (by omega), back]
  · rename_i notOne
    have bits : ∀ number, number % 64 < 64 := fun number => Nat.mod_lt _ (by decide)
    split
    · rename_i twoBytes
      have lead := start_lead (toNat_ofNat (by omega : value / 64 % 32 + 0xC0 < 256)) (by omega)
        (by omega)
      rw [if_pos (by omega)] at lead
      rw [List.cons_append, partsFrom_lead _ lead, List.cons_append,
        partsFrom_last _ (toNat_ofNat (by omega)) (by omega) (by omega), List.nil_append,
        show 64 * (value / 64 % 32 + 0xC0 - 0xC0) + value % 64 = value by omega, back]
    · rename_i notTwo
      split
      · rename_i threeBytes
        have lead := start_lead (toNat_ofNat (by omega : value / 4096 % 16 + 0xE0 < 256)) (by omega)
          (by omega)
        rw [if_neg (by omega), if_pos (by omega)] at lead
        rw [List.cons_append, partsFrom_lead _ lead, List.cons_append,
          partsFrom_more _ (toNat_ofNat (by omega)) ?least ?greatest (by decide), List.cons_append,
          partsFrom_last _ (toNat_ofNat (by omega)) (by omega) (by omega), List.nil_append,
          show 64 * (64 * (value / 4096 % 16 + 0xE0 - 0xE0) + value / 64 % 64) + value % 64 =
            value by omega, back]
        case least => split <;> omega
        case greatest => split <;> omega
      · rename_i notThree
        have lead := start_lead (toNat_ofNat (by omega : value / 262144 % 8 + 0xF0 < 256)) (by omega)
          (by omega)
        rw [if_neg (by omega), if_neg (by omega)] at lead
        rw [List.cons_append, partsFrom_lead _ lead, List.cons_append,
          partsFrom_more _ (toNat_ofNat (by omega)) ?least ?greatest (by decide), List.cons_append,
          partsFrom_more _ (toNat_ofNat (by omega)) (by omega) (by omega) (by decide),
          List.cons_append,
          partsFrom_last _ (toNat_ofNat (by omega)) (by omega) (by omega), List.nil_append,
          show 64 * (64 * (64 * (value / 262144 % 8 + 0xF0 - 0xF0) + value / 4096 % 64) +
            value / 64 % 64) + value % 64 = value by omega, back]
        case least => split <;> omega
        case greatest => split <;> omega

@[simp] theorem decodeParts_encode (text : String) :
    decodeParts (encode text) = text.toList.map some := by
  rw [decodeParts, encode]
  induction text.toList with
  | nil => rfl
  | cons character rest induction =>
      simp [induction]

@[simp] theorem mapM_some (characters : List Char) :
    (characters.map some).mapM id = some characters := by
  induction characters with
  | nil => rfl
  | cons character rest induction => simp [induction]

@[simp] theorem decode?_encode (text : String) : decode? (encode text) = some text := by
  rw [decode?, decodeParts_encode, mapM_some, Option.map_some, String.ofList_toList]

/-- Where every part is a character, nothing is replaced. -/
theorem decodeLossy_eq_of_decode? {bytes : List UInt8} {text : String}
    (decoded : decode? bytes = some text) : decodeLossy bytes = text := by
  rw [decode?, Option.map_eq_some_iff] at decoded
  obtain ⟨characters, parts, rfl⟩ := decoded
  rw [decodeLossy]
  congr 1
  generalize decodeParts bytes = all at parts
  induction all generalizing characters with
  | nil =>
      cases parts
      rfl
  | cons part rest induction =>
      cases part with
      | none => cases parts
      | some character =>
          simp only [List.mapM_cons, id_eq, Option.bind_eq_bind, Option.bind_some,
            Option.bind_eq_some_iff] at parts
          obtain ⟨others, found, equality⟩ := parts
          cases equality
          rw [List.map_cons, induction others found, Option.getD_some]

theorem encode_injective {left right : String} (same : encode left = encode right) :
    left = right := by
  have decoded := congrArg decode? same
  rw [decode?_encode, decode?_encode, Option.some.injEq] at decoded
  exact decoded

end ScriptRegistrar.Text.Utf8
