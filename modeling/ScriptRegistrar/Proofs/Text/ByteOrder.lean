import Mathlib.Data.String.Basic
import ScriptRegistrar.Proofs.Text.Encoding

/-!
# The order of encoded texts

Texts are ordered as their bytes are.  Of two characters the greater one has the greater first
byte or, where as many bytes are needed for both, the greater digits behind it.
-/

namespace ScriptRegistrar.Text.Utf8

theorem ofNat_cons_lt {low high : Nat} {rest tail : List UInt8} (least : low ≤ high)
    (isByte : high < 256) (behind : low = high → rest < tail) :
    UInt8.ofNat low :: rest < UInt8.ofNat high :: tail := by
  rw [List.cons_lt_cons_iff, UInt8.lt_iff_toNat_lt, toNat_ofNat isByte,
    toNat_ofNat (Nat.lt_of_le_of_lt least isByte)]
  rcases Nat.lt_or_eq_of_le least with less | same
  · exact Or.inl less
  · exact Or.inr ⟨by rw [same], behind same⟩

/-- The bytes of a character with a value, by the number of bytes it needs. -/
inductive Encodes (value : Nat) : List UInt8 → Prop
  | one (greatest : value < 0x80) : Encodes value [UInt8.ofNat value]
  | two (least : 0x80 ≤ value) (greatest : value < 0x800) :
      Encodes value [UInt8.ofNat (value / 64 + 0xC0), UInt8.ofNat (value % 64 + 0x80)]
  | three (least : 0x800 ≤ value) (greatest : value < 0x10000) :
      Encodes value [UInt8.ofNat (value / 4096 + 0xE0), UInt8.ofNat (value / 64 % 64 + 0x80),
        UInt8.ofNat (value % 64 + 0x80)]
  | four (least : 0x10000 ≤ value) (greatest : value < 0x110000) :
      Encodes value [UInt8.ofNat (value / 262144 + 0xF0), UInt8.ofNat (value / 4096 % 64 + 0x80),
        UInt8.ofNat (value / 64 % 64 + 0x80), UInt8.ofNat (value % 64 + 0x80)]

theorem encodes_utf8EncodeChar (character : Char) :
    Encodes character.val.toNat (String.utf8EncodeChar character) := by
  have valid : character.val.toNat < 0xD800 ∨
      0xDFFF < character.val.toNat ∧ character.val.toNat < 0x110000 := character.valid
  unfold String.utf8EncodeChar
  generalize character.val.toNat = value at valid
  simp only
  split
  · exact .one (by omega)
  · split
    · rw [Nat.mod_eq_of_lt (by omega : value / 64 < 32)]
      exact .two (by omega) (by omega)
    · split
      · rw [Nat.mod_eq_of_lt (by omega : value / 4096 < 16)]
        exact .three (by omega) (by omega)
      · rw [Nat.mod_eq_of_lt (by omega : value / 262144 < 8)]
        exact .four (by omega) (by omega)

/-- The bytes of the smaller character come first, whatever follows. -/
theorem Encodes.lt {low high : Nat} {first second : List UInt8} (encodesLow : Encodes low first)
    (encodesHigh : Encodes high second) (less : low < high) (rest tail : List UInt8) :
    first ++ rest < second ++ tail := by
  cases encodesLow <;> cases encodesHigh <;>
    refine ofNat_cons_lt (by omega) (by omega) fun sameFirst => ?_
  case one.one => omega
  case two.two =>
      exact ofNat_cons_lt (by omega) (by omega) fun _ => by omega
  case three.three =>
      exact ofNat_cons_lt (by omega) (by omega) fun _ =>
        ofNat_cons_lt (by omega) (by omega) fun _ => by omega
  case four.four =>
      exact ofNat_cons_lt (by omega) (by omega) fun _ =>
        ofNat_cons_lt (by omega) (by omega) fun _ =>
          ofNat_cons_lt (by omega) (by omega) fun _ => by omega
  all_goals omega

theorem encode_lt_encode {left right : String} (less : left < right) :
    encode left < encode right := by
  have letters : List.Lex (· < ·) left.toList right.toList :=
    (List.lt_iff_lex_lt _ _).mp (String.lt_iff_toList_lt.mp less)
  rw [encode, encode]
  generalize left.toList = first at letters
  generalize right.toList = second at letters
  induction letters with
  | nil =>
      obtain ⟨byte, others, shape⟩ :=
        List.exists_cons_of_ne_nil (@String.utf8EncodeChar_ne_nil _)
      rw [List.flatMap_cons, shape]
      exact List.nil_lt_cons byte _
  | rel smaller =>
      rw [List.flatMap_cons, List.flatMap_cons]
      exact (encodes_utf8EncodeChar _).lt (encodes_utf8EncodeChar _)
        (UInt32.lt_iff_toNat_lt.mp smaller) _ _
  | cons _ induction =>
      rw [List.flatMap_cons, List.flatMap_cons]
      exact List.append_left_lt induction

@[simp] theorem encode_lt_encode_iff {left right : String} :
    encode left < encode right ↔ left < right := by
  refine ⟨fun less => ?_, encode_lt_encode⟩
  rcases lt_trichotomy left right with before | same | behind
  · exact before
  · rw [same] at less
    exact (List.lt_irrefl _ less).elim
  · exact (List.lt_asymm less (encode_lt_encode behind)).elim

@[simp] theorem encode_le_encode_iff {left right : String} :
    encode left ≤ encode right ↔ left ≤ right := by
  rw [← not_lt, ← encode_lt_encode_iff]
  rfl

end ScriptRegistrar.Text.Utf8
