import ScriptRegistrar.Text.Search
import ScriptRegistrar.Toml.Value

/-!
# TOML scalars

Values that stand without quotation marks: booleans, integers in four bases, numbers with a
fraction or an exponent, and dates and times.
-/

namespace ScriptRegistrar.Toml.Scalar

open Text

/-- A character of a scalar, besides the space between a date and a time. -/
def isScalarChar (character : Char) : Bool :=
  character.isAlphanum || character = '_' || character = '+' || character = '-' ||
    character = '.' || character = ':'

/-- The number that digits of a base up to sixteen stand for. -/
def number (base : Nat) (digits : List Char) : Nat :=
  digits.foldl (fun value digit => base * value + digitValue digit) 0
where
  /-- The value of a digit. -/
  digitValue (digit : Char) : Nat :=
    if digit.isDigit then digit.toNat - '0'.toNat else digit.toLower.toNat - 'a'.toNat + 10

/-- Whether a character is a digit of a base up to sixteen. -/
def isDigitOf (base : Nat) (digit : Char) : Bool :=
  (digit.isDigit || ('a' ≤ digit.toLower && digit.toLower ≤ 'f')) &&
    number.digitValue digit < base

/-- Digits without the underscores between them.  An underscore needs a digit on both sides. -/
def digits? (base : Nat) (text : List Char) : Option (List Char) :=
  let groups := fields (· = '_') text
  if groups.all (fun group => !group.isEmpty && group.all (isDigitOf base)) then
    some groups.flatten
  else none

/-- Decimal digits without a superfluous zero in front. -/
def wholeDigits? (text : List Char) : Option (List Char) := do
  let digits ← digits? 10 text
  if digits.head? = some '0' && digits.length > 1 then none else some digits

/-- Splits a sign off; `true` stands for minus. -/
def splitSign : List Char → Bool × List Char
  | '-' :: rest => (true, rest)
  | '+' :: rest => (false, rest)
  | text => (false, text)

/-- An integer: decimal with a sign or without, or in another base without a sign. -/
def integer? : List Char → Option Value
  | '0' :: 'x' :: rest => (digits? 16 rest).map (fun digits => .integer (number 16 digits))
  | '0' :: 'o' :: rest => (digits? 8 rest).map (fun digits => .integer (number 8 digits))
  | '0' :: 'b' :: rest => (digits? 2 rest).map (fun digits => .integer (number 2 digits))
  | text =>
    let (negative, rest) := splitSign text
    (wholeDigits? rest).map fun digits =>
      .integer (if negative then -(number 10 digits : Int) else number 10 digits)

/-- An exponent: digits with a sign or without. -/
def exponent? (text : List Char) : Option Int :=
  let (negative, rest) := splitSign text
  (digits? 10 rest).map fun digits =>
    if negative then -(number 10 digits : Int) else number 10 digits

/-- A decimal number with a fraction, an exponent or both. -/
def float? (text : List Char) : Option Value := do
  let unsigned := (splitSign text).2
  let isExponentSign := fun (character : Char) => character = 'e' || character = 'E'
  let mantissa := unsigned.takeWhile (!isExponentSign ·)
  let scale := unsigned.dropWhile (!isExponentSign ·)
  let whole ← wholeDigits? (mantissa.takeWhile (· ≠ '.'))
  let fraction ← match mantissa.dropWhile (· ≠ '.') with
    | [] => some []
    | _ :: rest => digits? 10 rest
  let exponent ← match scale with
    | [] => if mantissa.contains '.' then some 0 else none
    | _ :: rest => exponent? rest
  some (.float (number 10 (whole ++ fraction)) (exponent - fraction.length))

def word? (text : List Char) : Option Value :=
  if text = "true".toList then some (.boolean true)
  else if text = "false".toList then some (.boolean false)
  else
    let unsigned := (splitSign text).2
    if unsigned = "inf".toList || unsigned = "nan".toList then some .special else none

/-- Reads a number of two digits that is not above `limit`. -/
def twoDigits? (limit : Nat) : List Char → Option (Nat × List Char)
  | first :: second :: rest =>
    if first.isDigit && second.isDigit && number 10 [first, second] ≤ limit then
      some (number 10 [first, second], rest)
    else none
  | _ => none

/-- Reads one sign. -/
def sign? (sign : Char) : List Char → Option (List Char)
  | [] => none
  | next :: rest => if next = sign then some rest else none

def daysOfMonth (year month : Nat) : Nat :=
  if month = 2 then
    if year % 4 = 0 && (year % 100 ≠ 0 || year % 400 = 0) then 29 else 28
  else if month = 4 || month = 6 || month = 9 || month = 11 then 30
  else 31

/-- Reads a date: a year of four digits, a month and a day. -/
def date? (text : List Char) : Option (List Char) := do
  let (century, rest) ← twoDigits? 99 text
  let (year, rest) ← twoDigits? 99 rest
  let rest ← sign? '-' rest
  let (month, rest) ← twoDigits? 12 rest
  let rest ← sign? '-' rest
  let (day, rest) ← twoDigits? 31 rest
  if 1 ≤ month && 1 ≤ day && day ≤ daysOfMonth (100 * century + year) month then some rest
  else none

/-- Reads the digits behind the point of a second, if there is a point. -/
def secondFraction? (text : List Char) : Option (List Char) :=
  match text with
  | '.' :: rest =>
    if (rest.takeWhile Char.isDigit).isEmpty then none else some (rest.dropWhile Char.isDigit)
  | _ => some text

/-- Reads a time: hours and minutes, seconds if a colon follows, and a fraction of those. -/
def time? (text : List Char) : Option (List Char) := do
  let (_, rest) ← twoDigits? 23 text
  let rest ← sign? ':' rest
  let (_, rest) ← twoDigits? 59 rest
  match rest with
  | ':' :: rest => do
    let (_, rest) ← twoDigits? 60 rest
    secondFraction? rest
  | _ => some rest

/-- Reads the offset of a time, if there is one. -/
def offset? (text : List Char) : Option (List Char) :=
  match text with
  | [] => some []
  | next :: rest =>
    if next = 'Z' || next = 'z' then some rest
    else if next = '+' || next = '-' then do
      let (_, rest) ← twoDigits? 23 rest
      let rest ← sign? ':' rest
      let (_, rest) ← twoDigits? 59 rest
      some rest
    else none

/-- A time, a date, or a date with a time and perhaps an offset. -/
def dateTime? (text : List Char) : Option Value := do
  let rest ← match date? text with
    | none => time? text
    | some [] => some []
    | some (delimiter :: rest) =>
      if delimiter = 'T' || delimiter = 't' || delimiter = ' ' then (time? rest).bind offset?
      else none
  if rest.isEmpty then some .dateTime else none

def parse? (text : List Char) : Option Value :=
  word? text <|> integer? text <|> float? text <|> dateTime? text

/-- Splits a text behind the scalar it starts with.  One space joins a date and a time. -/
def split (text : List Char) : List Char × List Char :=
  let first := text.takeWhile isScalarChar
  let behind := text.dropWhile isScalarChar
  match behind with
  | ' ' :: next :: rest =>
    if date? first = some [] && next.isDigit then
      (first ++ ' ' :: (next :: rest).takeWhile isScalarChar,
        (next :: rest).dropWhile isScalarChar)
    else (first, behind)
  | _ => (first, behind)

def read? (text : List Char) : Option (Value × List Char) :=
  let (scalar, rest) := split text
  (parse? scalar).map (·, rest)

end ScriptRegistrar.Toml.Scalar
