import Phrasebook.Data.Number

/-! Reading JSON texts. -/

set_option autoImplicit false

namespace Phrasebook.Data.Json

def isSpace (c : Char) : Bool := c == ' ' || c == '\t' || c == '\n' || c == '\r'

def skipSpace (text : List Char) : List Char := text.dropWhile isSpace

/-- The character of a `\u` escape whose `u` has been read; two surrogates make
one character. -/
def unicodeEscape? (text : List Char) : Option (Char × List Char) := do
  let (high, rest) ← hexNumber? 4 text
  if 0xD800 ≤ high && high < 0xDC00 then
    match rest with
    | '\\' :: 'u' :: others =>
      let (low, rest) ← hexNumber? 4 others
      if 0xDC00 ≤ low && low < 0xE000 then
        let c ← charOfCode? (0x10000 + (high - 0xD800) * 0x400 + (low - 0xDC00))
        return (c, rest)
      else none
    | _ => none
  else
    let c ← charOfCode? high
    return (c, rest)

/-- The character of an escape whose backslash has been read. -/
def escape? : List Char → Option (Char × List Char)
  | '"' :: rest => some ('"', rest)
  | '\\' :: rest => some ('\\', rest)
  | '/' :: rest => some ('/', rest)
  | 'b' :: rest => some ('\x08', rest)
  | 'f' :: rest => some ('\x0C', rest)
  | 'n' :: rest => some ('\n', rest)
  | 'r' :: rest => some ('\r', rest)
  | 't' :: rest => some ('\t', rest)
  | 'u' :: rest => unicodeEscape? rest
  | _ => none

def string? : Nat → List Char → Option (List Char × List Char)
  | 0, _ => none
  | _ + 1, [] => none
  | fuel + 1, c :: rest =>
    if c = '"' then some ([], rest)
    else if c = '\\' then do
      let (escaped, after) ← escape? rest
      let (others, final) ← string? fuel after
      return (escaped :: others, final)
    else if c.toNat < 0x20 then none
    else do
      let (others, final) ← string? fuel rest
      return (c :: others, final)

def isNumberChar (c : Char) : Bool :=
  isDigit c || c == '-' || c == '+' || c == '.' || c == 'e' || c == 'E'

/-- Whether a decimal has no superfluous zero and digits on both sides of its point. -/
def isNumber (magnitude : List Char) : Bool :=
  let whole := magnitude.takeWhile isDigit
  let rest := magnitude.dropWhile isDigit
  let pointed := match rest with
    | '.' :: c :: _ => isDigit c
    | '.' :: [] => false
    | _ => true
  !whole.isEmpty && (whole.length == 1 || whole.head? != some '0') && pointed

/-- Add digits to a whole number as long as it fits into 64 bits, and count the
digits that were added. -/
def addDigits (value count : Nat) : List Char → Nat × Nat
  | [] => (value, count)
  | digit :: rest =>
    let next := 10 * value + (digit.toNat - '0'.toNat)
    if next < UInt64.size then addDigits next (count + 1) rest else (value, count)

/-- A number. Whole numbers that fit into 64 bits stay exact; a real number has
the precision of digits that fit into 64 bits and of the steps that shift them. -/
def number? (token : List Char) : Option Value := do
  let (negative, magnitude) := match token with
    | '-' :: rest => (true, rest)
    | _ => (false, token)
  if !isNumber magnitude then none
  else
    let parts ← decimalParts? magnitude
    let (whole, taken) := addDigits 0 0 parts.whole
    let dropped : Int := (parts.whole.length - taken : Nat)
    if magnitude.all isDigit && dropped == 0 then
      let value := withSign negative whole
      if fitsInt64 value && !(negative && whole == 0) then return .int value
      else return .real (.ofBinary negative whole 0)
    else
      let (digits, added) := addDigits whole 0 parts.fraction
      let value ← Binary64.ofDecimalInSteps? negative digits (dropped - added + parts.exponent)
      return .real value

def atom? (text : List Char) : Option (Value × List Char) :=
  let word := text.takeWhile fun c => 'a' ≤ c && c ≤ 'z'
  match String.ofList word with
  | "null" => some (.null, text.drop 4)
  | "true" => some (.bool true, text.drop 4)
  | "false" => some (.bool false, text.drop 5)
  | _ =>
    (number? (text.takeWhile isNumberChar)).map fun value => (value, text.dropWhile isNumberChar)

/-- How many lists and records may stand in each other. -/
def maxDepth : Nat := 127

mutual

def value? : Nat → Nat → List Char → Option (Value × List Char)
  | 0, _, _ => none
  | fuel + 1, depth, text =>
    match skipSpace text with
    | '"' :: rest => (string? (rest.length + 1) rest).map fun found =>
        (.text (String.ofList found.1), found.2)
    | '[' :: rest =>
      if depth = maxDepth then none
      else
        match skipSpace rest with
        | ']' :: after => some (.list [], after)
        | others => (items? fuel (depth + 1) others).map fun found => (.list found.1, found.2)
    | '\x7b' :: rest =>
      if depth = maxDepth then none
      else
        match skipSpace rest with
        | '\x7d' :: after => some (.record [], after)
        | others => (entries? fuel (depth + 1) others).map fun found =>
            (.record (keepLast found.1), found.2)
    | others => atom? others

def items? : Nat → Nat → List Char → Option (List Value × List Char)
  | 0, _, _ => none
  | fuel + 1, depth, text => do
    let (item, rest) ← value? fuel depth text
    match skipSpace rest with
    | ']' :: after => return ([item], after)
    | ',' :: others =>
      let (items, after) ← items? fuel depth others
      return (item :: items, after)
    | _ => none

def entries? : Nat → Nat → List Char → Option (List (String × Value) × List Char)
  | 0, _, _ => none
  | fuel + 1, depth, text => do
    let '"' :: inside := skipSpace text | none
    let (key, afterKey) ← string? (inside.length + 1) inside
    let ':' :: afterColon := skipSpace afterKey | none
    let (value, rest) ← value? fuel depth afterColon
    match skipSpace rest with
    | '\x7d' :: after => return ([(String.ofList key, value)], after)
    | ',' :: others =>
      let (entries, after) ← entries? fuel depth others
      return ((String.ofList key, value) :: entries, after)
    | _ => none

end

def parse? (text : List Char) : Option Value :=
  match value? (text.length + 1) 0 text with
  | some (value, rest) => if (skipSpace rest).isEmpty then some value else none
  | none => none

end Phrasebook.Data.Json
