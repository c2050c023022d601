/-!
# UTF-8

Texts are stored as bytes.  `decodeParts` splits bytes into the characters they encode and into
parts that belong to no character, each as long as possible: the first bytes of a character that
breaks off make one part, any other stray byte makes one of its own.  Both ways to read a file are
views of these parts: `decode?` wants none that is invalid, `decodeLossy` puts the replacement
character in place of each.
-/

namespace ScriptRegistrar.Text.Utf8

/-- A character of which some bytes are still to come. -/
structure Unfinished where
  /-- The value of the bits read so far. -/
  value : Nat
  /-- The number of bytes to come. -/
  missing : Nat
  /-- The least value of the next byte. -/
  lower : Nat
  /-- The greatest value of the next byte. -/
  upper : Nat
  deriving DecidableEq, Repr

inductive Start where
  | character (character : Char)
  | unfinished (unfinished : Unfinished)
  | invalid
  deriving DecidableEq, Repr

/-- What a byte starts.  The ranges of the second byte leave out overlong forms, surrogates and
what lies above the last code point. -/
def start (byte : UInt8) : Start :=
  let value := byte.toNat
  if value < 0x80 then .character (Char.ofNat value)
  else if value < 0xC2 then .invalid
  else if value < 0xE0 then .unfinished ⟨value - 0xC0, 1, 0x80, 0xBF⟩
  else if value = 0xE0 then .unfinished ⟨0, 2, 0xA0, 0xBF⟩
  else if value = 0xED then .unfinished ⟨0xD, 2, 0x80, 0x9F⟩
  else if value < 0xF0 then .unfinished ⟨value - 0xE0, 2, 0x80, 0xBF⟩
  else if value = 0xF0 then .unfinished ⟨0, 3, 0x90, 0xBF⟩
  else if value < 0xF4 then .unfinished ⟨value - 0xF0, 3, 0x80, 0xBF⟩
  else if value = 0xF4 then .unfinished ⟨4, 3, 0x80, 0x8F⟩
  else .invalid

/-- Whether a byte continues a character. -/
def Unfinished.accepts (unfinished : Unfinished) (byte : UInt8) : Bool :=
  unfinished.lower ≤ byte.toNat && byte.toNat ≤ unfinished.upper

/-- The character with one more byte. -/
def Unfinished.extend (unfinished : Unfinished) (byte : UInt8) : Start :=
  let value := 64 * unfinished.value + (byte.toNat - 0x80)
  if unfinished.missing ≤ 1 then .character (Char.ofNat value)
  else .unfinished ⟨value, unfinished.missing - 1, 0x80, 0xBF⟩

/-- The characters of a text and its invalid parts, which are `none`.  `pending` is the character
that the bytes before started. -/
def partsFrom (pending : Option Unfinished) : List UInt8 → List (Option Char)
  | [] => if pending.isSome then [none] else []
  | byte :: rest =>
    let continued := pending.filter (·.accepts byte)
    let broken := if pending.isSome && continued.isNone then [none] else []
    match continued.elim (start byte) (·.extend byte) with
    | .character character => broken ++ some character :: partsFrom none rest
    | .unfinished unfinished => broken ++ partsFrom (some unfinished) rest
    | .invalid => broken ++ none :: partsFrom none rest

def decodeParts (bytes : List UInt8) : List (Option Char) :=
  partsFrom none bytes

/-- The text that bytes encode, if they have no invalid part. -/
def decode? (bytes : List UInt8) : Option String :=
  ((decodeParts bytes).mapM id).map String.ofList

/-- The text that bytes encode, with U+FFFD for each invalid part. -/
def decodeLossy (bytes : List UInt8) : String :=
  String.ofList ((decodeParts bytes).map (·.getD '\ufffd'))

def encode (text : String) : List UInt8 :=
  text.toList.flatMap String.utf8EncodeChar

end ScriptRegistrar.Text.Utf8
