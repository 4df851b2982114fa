import Phrasebook.Data.Value

/-! Numbers written in plain text. -/

set_option autoImplicit false

namespace Phrasebook.Data

def isDigit (c : Char) : Bool := '0' ≤ c && c ≤ '9'

/-- The number that digits of a base write, largest position first. -/
def digitsValue (base : Nat) (digits : List Char) : Nat :=
  digits.foldl (fun value digit =>
    base * value + (if isDigit digit then digit.toNat - '0'.toNat
      else digit.toLower.toNat - 'a'.toNat + 10)) 0

def splitSign : List Char → Bool × List Char
  | '-' :: rest => (true, rest)
  | '+' :: rest => (false, rest)
  | text => (false, text)

def withSign (negative : Bool) (magnitude : Nat) : Int :=
  if negative then -(magnitude : Int) else magnitude

def fitsInt64 (value : Int) : Bool :=
  decide (Int64.minValue.toInt ≤ value) && decide (value ≤ Int64.maxValue.toInt)

/-- A whole number of 64 bits with an optional sign. -/
def int64? (text : List Char) : Option Int :=
  let (negative, digits) := splitSign text
  let value := withSign negative (digitsValue 10 digits)
  if !digits.isEmpty && digits.all isDigit && fitsInt64 value then some value else none

/-- The parts of a decimal: digits before the point, digits after it, exponent. -/
structure DecimalParts where
  whole : List Char
  fraction : List Char
  exponent : Int

/-- Split an unsigned decimal, such as `12.5e-3`, into its parts. -/
def decimalParts? (text : List Char) : Option DecimalParts :=
  let whole := text.takeWhile isDigit
  let afterWhole := text.dropWhile isDigit
  let fraction :=
    match afterWhole with
    | '.' :: rest => rest.takeWhile isDigit
    | _ => []
  let afterFraction :=
    match afterWhole with
    | '.' :: rest => rest.dropWhile isDigit
    | rest => rest
  if whole.isEmpty && fraction.isEmpty then none
  else
    match afterFraction with
    | [] => some ⟨whole, fraction, 0⟩
    | mark :: rest =>
      let (negative, digits) := splitSign rest
      if (mark == 'e' || mark == 'E') && !digits.isEmpty && digits.all isDigit then
        some ⟨whole, fraction, withSign negative (digitsValue 10 digits)⟩
      else none

def DecimalParts.value (parts : DecimalParts) (negative : Bool) : Binary64 :=
  .ofDecimal negative (digitsValue 10 (parts.whole ++ parts.fraction))
    (parts.exponent - parts.fraction.length)

def binary64? (text : List Char) : Option Binary64 :=
  let (negative, magnitude) := splitSign text
  let word := String.ofList (magnitude.map Char.toLower)
  if word == "inf" || word == "infinity" then some (.infinite negative)
  else if word == "nan" then some .nan
  else (decimalParts? magnitude).map (·.value negative)

/-- A real number, unless it is out of range. -/
def inRange? (value : Binary64) : Option Value :=
  match value with
  | .infinite _ => none
  | .finite .. | .nan => some (.real value)

def isHexDigit (c : Char) : Bool :=
  isDigit c || ('a' ≤ c && c ≤ 'f') || ('A' ≤ c && c ≤ 'F')

def hexNumber? (count : Nat) (text : List Char) : Option (Nat × List Char) :=
  let digits := text.take count
  if digits.length == count && digits.all isHexDigit then
    some (digitsValue 16 digits, text.drop count)
  else none

def charOfCode? (code : Nat) : Option Char :=
  if code.isValidChar then some (Char.ofNat code) else none

end Phrasebook.Data
