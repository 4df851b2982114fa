/-! Units of a spoken or written number.

A token is a number word, a linking word, or a written digit string. Its mask
tells which decimal positions it supplies: bit 0 for the units, bit 1 for the
tens, and so on.
-/

set_option autoImplicit false

namespace Phrasebook.Numeral

/-- Decimal position of the highest digit. -/
def position (value : Nat) : Nat :=
  if value < 10 then 0 else position (value / 10) + 1

def isPowerOfTen (value : Nat) : Bool := Nat.pow 10 (position value) == value

/-- The positions of the digits that are not zero. -/
def nonzeroPositions (value : Nat) : Nat :=
  if value = 0 then 0
  else (if value % 10 = 0 then 0 else 1) + 2 * nonzeroPositions (value / 10)

/-- The mask of a number word: its nonzero digits, and for zero its only digit. -/
def digitMask (value : Nat) : Nat := if value = 0 then 1 else nonzeroPositions value

/-- Number of positions in a mask. -/
def countPositions (mask : Nat) : Nat :=
  if mask = 0 then 0 else mask % 2 + countPositions (mask / 2)

inductive TokenKind where
  /-- A word of a lexicon. -/
  | number
  /-- A linking word between number words. -/
  | connector
  /-- A written digit string. -/
  | explicit
  deriving Repr, DecidableEq

structure Token where
  value : Nat
  mask : Nat
  kind : TokenKind
  deriving Repr, DecidableEq

namespace Token

def number (value : Nat) : Token := ⟨value, digitMask value, .number⟩

def connector : Token := ⟨0, 0, .connector⟩

def isDigit (c : Char) : Bool := '0' ≤ c && c ≤ '9'

def decimalValue (digits : List Char) : Nat :=
  digits.foldl (fun value digit => 10 * value + (digit.toNat - '0'.toNat)) 0

def maxDigits : Nat := 20

/-- A written digit string, unless it is empty, overlong or beyond 64 bits.
The mask covers every written position, so leading zeros count. -/
def explicit? (digits : List Char) : Option Token :=
  if digits.isEmpty || decide (maxDigits < digits.length) || !digits.all isDigit then none
  else if decimalValue digits < UInt64.size then
    some ⟨decimalValue digits, 1 <<< digits.length - 1, .explicit⟩
  else none

def isConnector (token : Token) : Bool := token.kind == .connector

def isUnit (token : Token) : Bool :=
  token.kind == .number && decide (1 ≤ token.value) && decide (token.value ≤ 9)

/-- A number word that is a power of ten of at least `least`. -/
def isPowerFrom (least : Nat) (token : Token) : Bool :=
  token.kind == .number && decide (least ≤ token.value) && isPowerOfTen token.value

def highest (token : Token) : Nat := position token.value

/-- Number of positions the token supplies; for a digit string its length. -/
def width (token : Token) : Nat := countPositions token.mask

end Token

end Phrasebook.Numeral
