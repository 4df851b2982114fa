import Phrasebook.Data.Json
import Phrasebook.Text.Blank
import Phrasebook.Text.WordChar

/-! Reading JSON5 texts: JSON with comments, plain keys and more ways to write
strings and numbers. -/

set_option autoImplicit false

namespace Phrasebook.Data.Json5

open Phrasebook.Text

def isLineEnd (c : Char) : Bool := c == '\n' || c == '\r' || c == '\u2028' || c == '\u2029'

def isGap (c : Char) : Bool := (isBlank c && c != '\u0085') || c == '\uFEFF'

/-- The text after a comment on several lines whose start has been read. -/
def afterComment? : List Char → Option (List Char)
  | [] => none
  | '*' :: '/' :: rest => some rest
  | _ :: rest => afterComment? rest

def skipGapsWithin : Nat → List Char → List Char
  | 0, text => text
  | fuel + 1, text =>
    match text.dropWhile isGap with
    | '/' :: '/' :: rest => skipGapsWithin fuel (rest.dropWhile fun c => !isLineEnd c)
    | '/' :: '*' :: rest =>
      match afterComment? rest with
      | some after => skipGapsWithin fuel after
      | none => '/' :: '*' :: rest
    | others => others

def skipGaps (text : List Char) : List Char := skipGapsWithin (text.length + 1) text

def escapes : List (Char × Char) :=
  [('b', '\x08'), ('f', '\x0C'), ('n', '\n'), ('r', '\r'), ('t', '\t'), ('v', '\x0B'),
    ('0', '\x00')]

/-- What an escape stands for, whose backslash has been read. At a line end it
stands for nothing, and most characters stand for themselves. -/
def escape? (text : List Char) : Option (List Char × List Char) :=
  match text with
  | [] => none
  | '\r' :: '\n' :: rest => some ([], rest)
  | 'u' :: rest => (Json.unicodeEscape? rest).map fun found => ([found.1], found.2)
  | 'x' :: rest => do
    let (code, after) ← hexNumber? 2 rest
    return ([Char.ofNat code], after)
  | c :: rest =>
    if isLineEnd c then some ([], rest)
    else
      match escapes.lookup c with
      | some escaped => some ([escaped], rest)
      | none => if isDigit c then none else some ([c], rest)

def string? (quote : Char) : Nat → List Char → Option (List Char × List Char)
  | 0, _ => none
  | _ + 1, [] => none
  | fuel + 1, c :: rest =>
    if c = quote then some ([], rest)
    else if c = '\\' then do
      let (escaped, after) ← escape? rest
      let (others, final) ← string? quote fuel after
      return (escaped ++ others, final)
    else if isLineEnd c then none
    else do
      let (others, final) ← string? quote fuel rest
      return (c :: others, final)

/-- Accents that stand alone, which are part of names. -/
def accents : List Char :=
  ['^', '\x60', '\u00A8', '\u00AF', '\u00B4', '\u00B7', '\u00B8']

def isNameChar (isFirst : Bool) (c : Char) : Bool :=
  c == '$' || c == '_' ||
    if isFirst then isWordChar c && !isDecimal c else isWordChar c || accents.contains c

def name? : Nat → Bool → List Char → Option (List Char × List Char)
  | 0, _, _ => none
  | _ + 1, _, [] => some ([], [])
  | fuel + 1, isFirst, c :: rest =>
    if c = '\\' then
      match rest with
      | 'u' :: code => do
        let (escaped, after) ← Json.unicodeEscape? code
        let (others, final) ← name? fuel false after
        return (escaped :: others, final)
      | _ => none
    else if isNameChar isFirst c then do
      let (others, final) ← name? fuel false rest
      return (c :: others, final)
    else some ([], c :: rest)

def key? (text : List Char) : Option (String × List Char) :=
  match text with
  | [] => none
  | c :: rest => do
    if c = '"' || c = '\'' then
      let (key, after) ← string? c (rest.length + 1) rest
      return (String.ofList key, after)
    else
      let (name, after) ← name? (text.length + 1) true text
      if name.isEmpty then none else return (String.ofList name, after)

/-- A number in base sixteen, of at most 32 bits. -/
def hexadecimal? (digits : List Char) : Option Value :=
  let value := digitsValue 16 digits
  if !digits.isEmpty && digits.all isHexDigit && value < UInt32.size then some (.int value)
  else none

/-- A number in base ten. It is whole if it has neither a point nor an exponent. -/
def decimal? (negative : Bool) (magnitude : List Char) : Option Value :=
  let whole := magnitude.takeWhile isDigit
  if 1 < whole.length && whole.head? == some '0' then none
  else if magnitude.all isDigit then
    let value := withSign negative (digitsValue 10 magnitude)
    if !magnitude.isEmpty && fitsInt64 value then some (.int value) else none
  else (decimalParts? magnitude).bind fun parts => inRange? (parts.value negative)

/-- A number. One in base sixteen has no sign, and a word has no plus sign. -/
def number? (token : List Char) : Option Value :=
  let (negative, magnitude) := splitSign token
  if magnitude == "Infinity".toList || magnitude == "NaN".toList then
    if token.head? == some '+' then none
    else if magnitude.head? == some 'N' then some (.real .nan)
    else some (.real (.infinite negative))
  else
    match token with
    | '0' :: 'x' :: digits => hexadecimal? digits
    | '0' :: 'X' :: digits => hexadecimal? digits
    | _ => decimal? negative magnitude

def isWordPart (c : Char) : Bool := c.isAlphanum || c == '+' || c == '-' || c == '.'

def word? (token : List Char) : Option Value :=
  match String.ofList token with
  | "null" => some .null
  | "true" => some (.bool true)
  | "false" => some (.bool false)
  | _ => number? token

mutual

def value? : Nat → List Char → Option (Value × List Char)
  | 0, _ => none
  | fuel + 1, text =>
    match skipGaps text with
    | [] => none
    | c :: rest =>
      if c = '"' || c = '\'' then
        (string? c (rest.length + 1) rest).map fun found => (.text (String.ofList found.1), found.2)
      else if c = '[' then
        match skipGaps rest with
        | ']' :: after => some (.list [], after)
        | others => (items? fuel others).map fun found => (.list found.1, found.2)
      else if c = '\x7b' then
        match skipGaps rest with
        | '\x7d' :: after => some (.record [], after)
        | others => (entries? fuel others).map fun found => (.record (keepLast found.1), found.2)
      else
        (word? ((c :: rest).takeWhile isWordPart)).map fun value =>
          (value, (c :: rest).dropWhile isWordPart)

def items? : Nat → List Char → Option (List Value × List Char)
  | 0, _ => none
  | fuel + 1, text => do
    let (item, rest) ← value? fuel text
    match skipGaps rest with
    | ']' :: after => return ([item], after)
    | ',' :: others =>
      match skipGaps others with
      | ']' :: after => return ([item], after)
      | next =>
        let (items, after) ← items? fuel next
        return (item :: items, after)
    | _ => none

def entries? : Nat → List Char → Option (List (String × Value) × List Char)
  | 0, _ => none
  | fuel + 1, text => do
    let (key, afterKey) ← key? (skipGaps text)
    let ':' :: afterColon := skipGaps afterKey | none
    let (value, rest) ← value? fuel afterColon
    match skipGaps rest with
    | '\x7d' :: after => return ([(key, value)], after)
    | ',' :: others =>
      match skipGaps others with
      | '\x7d' :: after => return ([(key, value)], after)
      | next =>
        let (entries, after) ← entries? fuel next
        return ((key, value) :: entries, after)
    | _ => none

end

def parse? (text : List Char) : Option Value :=
  match value? (text.length + 1) text with
  | some (value, rest) => if (skipGaps rest).isEmpty then some value else none
  | none => none

end Phrasebook.Data.Json5
