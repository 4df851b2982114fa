import Phrasebook.Data.Number

/-! Numbers, truth values and dates of TOML texts. -/

set_option autoImplicit false

namespace Phrasebook.Data.Toml

/-- Digits without the underscores that stand between two of them. -/
def withoutUnderscores? (isDigitOf : Char → Bool) : List Char → Option (List Char)
  | [] => some []
  | [c] => if isDigitOf c then some [c] else none
  | c :: '_' :: d :: rest =>
    if isDigitOf c && isDigitOf d then
      (withoutUnderscores? isDigitOf (d :: rest)).map (c :: ·)
    else none
  | c :: rest =>
    if isDigitOf c then (withoutUnderscores? isDigitOf rest).map (c :: ·) else none

def intValue? (value : Int) : Option Value := if fitsInt64 value then some (.int value) else none

/-- A whole number of a base whose prefix has been read. -/
def basedInt? (base : Nat) (isDigitOf : Char → Bool) (digits : List Char) : Option Value := do
  let plain ← withoutUnderscores? isDigitOf digits
  if plain.isEmpty then none else intValue? (digitsValue base plain)

def isDecimalChar (c : Char) : Bool := isDigit c || c == '_'

def noExtraZero (digits : List Char) : Bool := digits.length == 1 || digits.head? != some '0'

/-- A decimal with a fraction or an exponent. One above all numbers fails, one
below them is an infinity. -/
def real? (negative : Bool) (magnitude : List Char) : Option Value := do
  let whole ← withoutUnderscores? isDigit (magnitude.takeWhile isDecimalChar)
  let afterWhole := magnitude.dropWhile isDecimalChar
  let (fraction, afterFraction) ←
    match afterWhole with
    | '.' :: rest => do
      let digits ← withoutUnderscores? isDigit (rest.takeWhile isDecimalChar)
      if digits.isEmpty then none else pure ('.' :: digits, rest.dropWhile isDecimalChar)
    | rest => pure ([], rest)
  let exponent ←
    match afterFraction with
    | [] => pure []
    | mark :: rest => do
      let (negativeExponent, digits) := splitSign rest
      let plain ← withoutUnderscores? isDigit digits
      if (mark == 'e' || mark == 'E') && !plain.isEmpty then
        pure ('e' :: (if negativeExponent then ['-'] else []) ++ plain)
      else none
  if whole.isEmpty || !noExtraZero whole then none
  else
    let parts ← decimalParts? (whole ++ fraction ++ exponent)
    match parts.value negative with
    | .infinite false => none
    | value => return .real value

def number? (token : List Char) : Option Value :=
  let (negative, magnitude) := splitSign token
  match String.ofList magnitude with
  | "inf" => some (.real (.infinite negative))
  | "nan" => some (.real .nan)
  | _ =>
    if magnitude.all isDecimalChar then do
      let digits ← withoutUnderscores? isDigit magnitude
      if digits.isEmpty || !noExtraZero digits then none
      else intValue? (withSign negative (digitsValue 10 digits))
    else real? negative magnitude

def word? (token : List Char) : Option Value :=
  match token with
  | '0' :: 'x' :: digits => basedInt? 16 isHexDigit digits
  | '0' :: 'o' :: digits => basedInt? 8 (fun c => '0' ≤ c && c ≤ '7') digits
  | '0' :: 'b' :: digits => basedInt? 2 (fun c => c == '0' || c == '1') digits
  | _ =>
    match String.ofList token with
    | "true" => some (.bool true)
    | "false" => some (.bool false)
    | _ => number? token

def isWordChar (c : Char) : Bool := c.isAlphanum || c == '_' || c == '+' || c == '-' || c == '.'

/-- A number of as many digits as stand for it, within bounds. -/
def fixedNumber? (count low high : Nat) (text : List Char) : Option (Nat × List Char) :=
  let digits := text.take count
  let value := digitsValue 10 digits
  if digits.length == count && digits.all isDigit && low ≤ value && value ≤ high then
    some (value, text.drop count)
  else none

def after? (mark : Char) : List Char → Option (List Char)
  | c :: rest => if c = mark then some rest else none
  | [] => none

def daysOfMonth (year month : Nat) : Nat :=
  if month = 2 then
    if year % 4 = 0 && (year % 100 != 0 || year % 400 == 0) then 29 else 28
  else if [4, 6, 9, 11].contains month then 30
  else 31

def day? (text : List Char) : Option (List Char × List Char) := do
  let (year, rest) ← fixedNumber? 4 0 9999 text
  let (month, rest) ← fixedNumber? 2 1 12 (← after? '-' rest)
  let (_, rest) ← fixedNumber? 2 1 (daysOfMonth year month) (← after? '-' rest)
  return (text.take 10, rest)

/-- A fraction of a second in nanoseconds, without zeros at its end. -/
def secondFraction (digits : List Char) : List Char :=
  let kept := ((digits.take 9).reverse.dropWhile (· == '0')).reverse
  if kept.isEmpty then [] else '.' :: kept

def time? (text : List Char) : Option (List Char × List Char) := do
  let (_, rest) ← fixedNumber? 2 0 23 text
  let (_, rest) ← fixedNumber? 2 0 59 (← after? ':' rest)
  let (_, rest) ← fixedNumber? 2 0 60 (← after? ':' rest)
  match rest with
  | '.' :: fraction =>
    let digits := fraction.takeWhile isDigit
    if digits.isEmpty then none
    else return (text.take 8 ++ secondFraction digits, fraction.dropWhile isDigit)
  | _ => return (text.take 8, rest)

/-- The text of a distance from universal time, and what follows it. Without one
the text is empty. -/
def offset? (text : List Char) : Option (List Char × List Char) :=
  match text with
  | [] => some ([], [])
  | mark :: rest =>
    if mark = 'Z' || mark = 'z' then some (['Z'], rest)
    else if mark = '+' || mark = '-' then do
      let (hours, others) ← fixedNumber? 2 0 23 rest
      let (minutes, final) ← fixedNumber? 2 0 59 (← after? ':' others)
      let sign := if hours = 0 && minutes = 0 then '+' else mark
      return (sign :: rest.take 5, final)
    else some ([], text)

def startsTime (text : List Char) : Bool :=
  (fixedNumber? 2 0 99 text).any fun found => found.2.head? == some ':'

def startsDay (text : List Char) : Bool :=
  (fixedNumber? 4 0 9999 text).any fun found => found.2.head? == some '-'

def date? (text : List Char) : Option (Value × List Char) := do
  if startsTime text then
    let (time, rest) ← time? text
    return (.date (String.ofList time), rest)
  else
    let (day, rest) ← day? text
    match rest with
    | mark :: others =>
      if (mark == 'T' || mark == 't' || mark == ' ') && startsTime others then
        let (time, rest) ← time? others
        let (offset, final) ← offset? rest
        return (.date (String.ofList (day ++ 'T' :: time ++ offset)), final)
      else return (.date (String.ofList day), rest)
    | [] => return (.date (String.ofList day), [])

end Phrasebook.Data.Toml
