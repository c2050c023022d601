import ScriptRegistrar.Toml.Value

/-!
# Settings in TOML values

How the known settings of a value are read.  A value that is passed over must still be one that
can be represented: an integer of at most 128 bits, a number in the range of double precision.
Where a table of known settings is expected, a list of their values in the order of the settings
serves as well.
-/

namespace ScriptRegistrar.Toml.Value

/-- The integers that a document may hold: those that fit into 128 bits, with a sign or
without. -/
def isRepresentable (value : Int) : Bool :=
  -Int.pow 2 127 ≤ value && value < Int.pow 2 128

/-- Whether a number of double precision can be near `digits` times a power of ten.  The largest
such number and half a unit in its last place add up to the limit. -/
def isNearDouble (digits : Nat) (exponent : Int) : Bool :=
  let limit := Nat.pow 2 1024 - Nat.pow 2 970
  let places := (Nat.toDigits 10 digits).length + exponent
  if digits = 0 || places < 300 then true
  else if 310 < places then false
  else if 0 ≤ exponent then digits * Nat.pow 10 exponent.toNat < limit
  else digits < limit * Nat.pow 10 (-exponent).toNat

mutual

def isReadable : Value → Bool
  | .integer value => isRepresentable value
  | .float digits exponent => isNearDouble digits exponent
  | .array _ items => areReadable items
  | .table _ entries => entriesAreReadable entries
  | _ => true

def areReadable : List Value → Bool
  | [] => true
  | item :: rest => isReadable item && areReadable rest

def entriesAreReadable : List (String × Value) → Bool
  | [] => true
  | (_, value) :: rest => isReadable value && entriesAreReadable rest

end

/-- The values of known settings in a table, in the order of their keys; or the first items of an
array.  A date sets nothing.  `none` if the value has no settings at all. -/
def settings? (keys : List String) : Value → Option (List (Option Value))
  | .table _ entries =>
    if entriesAreReadable (entries.filter (fun entry => !keys.contains entry.1)) then
      some (keys.map (Entries.find? entries))
    else none
  | .array _ items => some ((List.range keys.length).map (items[·]?))
  | .dateTime => some (keys.map fun _ => none)
  | _ => none

def string? : Value → Option String
  | .string value => some value
  | _ => none

/-- The items of an array, each read by `item?`. -/
def list? (item? : Value → Option α) : Value → Option (List α)
  | .array _ items => items.mapM item?
  | _ => none

/-- A setting that may be left out. -/
def orDefault (default : α) (read? : Value → Option α) : Option Value → Option α
  | none => some default
  | some value => read? value

end ScriptRegistrar.Toml.Value
