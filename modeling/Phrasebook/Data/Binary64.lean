/-! Binary floating point numbers of 64 bits, read from and written as decimals.

A decimal is rounded to the nearest number, ties to the even significand. A
number is written with the fewest digits that read back, without an exponent.
-/

set_option autoImplicit false

namespace Phrasebook.Data

inductive Binary64 where
  /-- The number `significand * 2 ^ exponent`. -/
  | finite (negative : Bool) (significand : Nat) (exponent : Int)
  | infinite (negative : Bool)
  | nan
  deriving Repr, DecidableEq

/-- A quotient rounded to a whole number, ties to even. -/
def roundQuotient (numerator denominator : Nat) : Nat :=
  let quotient := numerator / denominator
  let rest := 2 * (numerator % denominator)
  if rest < denominator then quotient
  else if denominator < rest then quotient + 1
  else quotient + quotient % 2

/-- The factors that turn a number into `number * base ^ exponent`, as a quotient. -/
def scale (base : Nat) (exponent : Int) : Nat × Nat :=
  (Nat.pow base exponent.toNat, Nat.pow base (-exponent).toNat)

def decimalDigits (value : Nat) : Nat := (Nat.toDigits 10 value).length

namespace Binary64

def zero : Binary64 := .finite false 0 0

def isZero : Binary64 → Bool
  | finite _ significand _ => significand == 0
  | infinite _ | nan => false

def ofQuotient (negative : Bool) (numerator denominator : Nat) : Binary64 :=
  let estimate : Int := numerator.log2 - denominator.log2 - 52
  let scaled (exponent : Int) : Nat × Nat :=
    let factors := scale 2 exponent
    (numerator * factors.2, denominator * factors.1)
  let whole := (scaled estimate).1 / (scaled estimate).2
  let exact : Int := if whole < Nat.pow 2 52 then estimate - 1 else estimate
  let exponent := max exact (-1074)
  let significand := roundQuotient (scaled exponent).1 (scaled exponent).2
  let normal : Nat × Int :=
    if significand < Nat.pow 2 53 then (significand, exponent) else (significand / 2, exponent + 1)
  if 971 < normal.2 then .infinite negative else .finite negative normal.1 normal.2

def ofBinary (negative : Bool) (significand : Nat) (exponent : Int) : Binary64 :=
  if significand = 0 then .finite negative 0 0
  else
    let factors := scale 2 exponent
    ofQuotient negative (significand * factors.1) factors.2

/-- The number nearest to `digits * 10 ^ exponent`. Decimals far out of range
are decided by their size alone. -/
def ofDecimal (negative : Bool) (digits : Nat) (exponent : Int) : Binary64 :=
  if digits = 0 then .finite negative 0 0
  else
    let size := exponent + decimalDigits digits
    if 400 < size then .infinite negative
    else if size < -400 then .finite negative 0 0
    else
      let factors := scale 10 exponent
      ofQuotient negative (digits * factors.1) factors.2

def powerOfTen (exponent : Nat) : Binary64 := ofDecimal false 1 exponent

def times : Binary64 → Binary64 → Binary64
  | finite _ left scaleLeft, finite _ right scaleRight =>
    ofBinary false (left * right) (scaleLeft + scaleRight)
  | nan, _ | _, nan => nan
  | infinite _, factor | factor, infinite _ => if factor.isZero then nan else .infinite false

/-- The rounded quotient of two numbers without signs, of which the second is not zero. -/
def dividedBy : Binary64 → Binary64 → Binary64
  | finite _ left scaleLeft, finite _ right scaleRight =>
    let factors := scale 2 (scaleLeft - scaleRight)
    if left = 0 then zero else ofQuotient false (left * factors.1) (right * factors.2)
  | nan, _ | _, nan | infinite _, infinite _ => nan
  | infinite _, finite .. => .infinite false
  | finite .., infinite _ => zero

def signed (negative : Bool) : Binary64 → Binary64
  | finite _ significand exponent => finite negative significand exponent
  | infinite _ => infinite negative
  | nan => nan

/-- Multiply a number by a power of ten, rounding after each of the steps that
powers in range allow. Fails where the number grows out of range. -/
def shiftedByTens? : Nat → Binary64 → Int → Option Binary64
  | 0, _, _ => none
  | steps + 1, value, exponent =>
    if exponent.natAbs ≤ 308 then
      if exponent < 0 then some (value.dividedBy (powerOfTen exponent.natAbs))
      else
        match value.times (powerOfTen exponent.natAbs) with
        | infinite _ => none
        | product => some product
    else if value.isZero then some value
    else if 0 < exponent then none
    else shiftedByTens? steps (value.dividedBy (powerOfTen 308)) (exponent + 308)

/-- A number near `digits * 10 ^ exponent`: the digits are rounded before they
are shifted. -/
def ofDecimalInSteps? (negative : Bool) (digits : Nat) (exponent : Int) : Option Binary64 :=
  (shiftedByTens? (exponent.natAbs / 308 + 2) (ofBinary false digits 0) exponent).map
    (signed negative)

/-- The largest power of ten not above a positive quotient. -/
def magnitude (numerator denominator : Nat) : Int :=
  if denominator ≤ numerator then (decimalDigits (numerator / denominator) : Int) - 1
  else
    match (List.range 400).find? fun zeros => denominator ≤ numerator * Nat.pow 10 (zeros + 1) with
    | some zeros => -((zeros : Int) + 1)
    | none => -400

/-- The fewest decimal digits, with their exponent, that read back as a positive
number. Of several decimals the nearest is taken, of two that are as near the
larger one. -/
def shortest (significand : Nat) (exponent : Int) : Nat × Int :=
  let factors := scale 2 exponent
  let numerator := significand * factors.1
  let denominator := factors.2
  let top := magnitude numerator denominator
  let neighbours (count : Nat) : List (Nat × Int) :=
    let unit := top - count
    let tens := scale 10 unit
    let scaled := numerator * tens.2
    let grid := denominator * tens.1
    let below := scaled / grid
    if grid ≤ 2 * (scaled % grid) then [(below + 1, unit), (below, unit)]
    else [(below, unit), (below + 1, unit)]
  let readsBack (decimal : Nat × Int) : Bool :=
    ofDecimal false decimal.1 decimal.2 == ofBinary false significand exponent
  let exact : Nat × Int := if 0 ≤ exponent then (numerator, 0)
    else (significand * Nat.pow 5 exponent.natAbs, exponent)
  (((List.range 17).flatMap neighbours).find? readsBack).getD exact

/-- Digits with a decimal point where the exponent puts it, and no zeros at the
end of a fraction. -/
def writeDecimal (decimal : Nat × Int) : List Char :=
  let reversed := (Nat.toDigits 10 decimal.1).reverse
  let digits := (reversed.dropWhile (· == '0')).reverse
  let exponent := decimal.2 + (reversed.takeWhile (· == '0')).length
  if 0 ≤ exponent then digits ++ List.replicate exponent.toNat '0'
  else
    let places := (-exponent).toNat
    let padded := List.replicate (places + 1 - digits.length) '0' ++ digits
    let cut := padded.length - places
    padded.take cut ++ '.' :: padded.drop cut

def write : Binary64 → List Char
  | nan => "NaN".toList
  | infinite negative => (if negative then ['-'] else []) ++ "inf".toList
  | finite negative significand exponent =>
    let magnitude :=
      if significand = 0 then ['0']
      else writeDecimal (shortest significand exponent)
    (if negative then ['-'] else []) ++ magnitude

end Binary64

end Phrasebook.Data
