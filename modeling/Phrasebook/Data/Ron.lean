import Phrasebook.Data.Number

/-! Reading RON texts: values with lists, records, tuples and options. -/

set_option autoImplicit false

namespace Phrasebook.Data.Ron

def isGap (c : Char) : Bool := c == ' ' || c == '\n' || c == '\t' || c == '\r'

def isNameStart (c : Char) : Bool := c.isAlpha || c == '_'

def isNamePart (c : Char) : Bool := c.isAlphanum || c == '_'

def isRawNamePart (c : Char) : Bool := isNamePart c || c == '.' || c == '+' || c == '-'

/-- The text after a comment that other comments may stand in. -/
def afterComment? : Nat → List Char → Option (List Char)
  | _, [] => none
  | depth, '/' :: '*' :: rest => afterComment? (depth + 1) rest
  | 0, '*' :: '/' :: rest => some rest
  | depth + 1, '*' :: '/' :: rest => afterComment? depth rest
  | depth, _ :: rest => afterComment? depth rest

def skipGapsWithin : Nat → List Char → List Char
  | 0, text => text
  | fuel + 1, text =>
    match text.dropWhile isGap with
    | '/' :: '/' :: rest => skipGapsWithin fuel (rest.dropWhile (· != '\n'))
    | '/' :: '*' :: rest =>
      match afterComment? 0 rest with
      | some after => skipGapsWithin fuel after
      | none => '/' :: '*' :: rest
    | others => others

def skipGaps (text : List Char) : List Char := skipGapsWithin (text.length + 1) text

/-- The name at the front of a text. A mark in front allows more characters in it. -/
def name? (text : List Char) : Option (String × List Char) :=
  match text with
  | [] => none
  | 'r' :: '"' :: _ => none
  | 'r' :: '#' :: rest =>
    let name := rest.takeWhile isRawNamePart
    if name.isEmpty then none else some (String.ofList name, rest.dropWhile isRawNamePart)
  | c :: _ =>
    let name := text.takeWhile isNamePart
    if isNameStart c && (text.takeWhile isRawNamePart).length == name.length then
      some (String.ofList name, text.dropWhile isNamePart)
    else none

def escapes : List (Char × Char) :=
  [('\'', '\''), ('"', '"'), ('\\', '\\'), ('n', '\n'), ('r', '\r'), ('t', '\t'), ('0', '\x00')]

def escape? : List Char → Option (Char × List Char)
  | 'x' :: rest => do
    let (code, after) ← hexNumber? 2 rest
    return (Char.ofNat code, after)
  | 'u' :: '\x7b' :: rest => do
    let digits := rest.takeWhile isHexDigit
    let '\x7d' :: after := rest.dropWhile isHexDigit | none
    if digits.isEmpty || 6 < digits.length then none
    else return (← charOfCode? (digitsValue 16 digits), after)
  | c :: rest => (escapes.lookup c).map fun escaped => (escaped, rest)
  | [] => none

def string? : Nat → List Char → Option (List Char × List Char)
  | 0, _ => none
  | _ + 1, [] => none
  | fuel + 1, c :: rest =>
    if c = '"' then some ([], rest)
    else if c = '\\' then do
      let (escaped, after) ← escape? rest
      let (others, final) ← string? fuel after
      return (escaped :: others, final)
    else do
      let (others, final) ← string? fuel rest
      return (c :: others, final)

/-- The text before an ending, and the text after it. -/
def upTo? (ending : List Char) : List Char → Option (List Char × List Char)
  | [] => none
  | c :: rest =>
    if ending.isPrefixOf (c :: rest) then some ([], (c :: rest).drop ending.length)
    else (upTo? ending rest).map fun found => (c :: found.1, found.2)

/-- A string without escapes whose first letter has been read. As many hashes as
stand before its first quote stand after its last one. -/
def rawString? (text : List Char) : Option (List Char × List Char) :=
  let hashes := text.takeWhile (· == '#')
  match text.dropWhile (· == '#') with
  | '"' :: rest => upTo? ('"' :: hashes) rest
  | _ => none

/-- A character whose opening quote has been read. -/
def char? (text : List Char) : Option (Char × List Char) := do
  let (c, rest) ←
    match text with
    | '\\' :: rest => escape? rest
    | c :: rest => if c = '\'' then none else some (c, rest)
    | [] => none
  let '\'' :: after := rest | none
  return (c, after)

def isRealChar (c : Char) : Bool :=
  isDigit c || c == 'e' || c == 'E' || c == '.' || c == '+' || c == '-'

def isWholeChar (c : Char) : Bool := isHexDigit c || c == '_'

def whole? (text : List Char) : Option (Value × List Char) :=
  let isSigned := text.head? == some '-' || text.head? == some '+'
  let (negative, magnitude) := splitSign text
  let (base, digits) : Nat × List Char :=
    match magnitude with
    | '0' :: 'x' :: rest => (16, rest)
    | '0' :: 'o' :: rest => (8, rest)
    | '0' :: 'b' :: rest => (2, rest)
    | _ => (10, magnitude)
  let written := digits.takeWhile isWholeChar
  let plain := written.filter (· != '_')
  let value := withSign negative (digitsValue base plain)
  if written.isEmpty || written.head? == some '_' || plain.any (base ≤ digitsValue 16 [·]) then none
  else if fitsInt64 value then some (.int value, digits.dropWhile isWholeChar)
  else if isSigned || UInt64.size ≤ value then none
  else some (.real (.ofDecimal false value.toNat 0), digits.dropWhile isWholeChar)

def real? (text : List Char) : Option (Value × List Char) :=
  let (negative, magnitude) := splitSign text
  let rest := magnitude.drop 3
  let isWord := !(rest.head?.any isNamePart)
  if "inf".toList.isPrefixOf magnitude && isWord then some (.real (.infinite negative), rest)
  else if "NaN".toList.isPrefixOf magnitude && isWord then some (.real .nan, rest)
  else
    (binary64? (text.takeWhile isRealChar)).map fun value =>
      (.real value, text.dropWhile isRealChar)

def number? (text : List Char) : Option (Value × List Char) :=
  let magnitude := (splitSign text).2
  if (magnitude.takeWhile isWholeChar).length < (magnitude.takeWhile isRealChar).length then
    real? text
  else (whole? text).orElse fun _ => real? text

/-- Whether the text after an opening parenthesis gives values without names. -/
def isTuple? (text : List Char) : Option Bool :=
  match name? text with
  | none => some true
  | some (_, rest) => (skipGaps rest).head?.map (· != ':')

def words : List (String × Value) :=
  [("true", .bool true), ("false", .bool false), ("None", .null), ("inf", .real (.infinite false)),
    ("NaN", .real .nan)]

/-- How many options may stand in each other. A list or a record counts twice. -/
def maxDepth : Nat := 128

/-- The levels left inside a list or a record. -/
def inside? : Nat → Option Nat
  | left + 2 => some left
  | _ => none

mutual

def value? : Nat → Nat → List Char → Option (Value × List Char)
  | 0, _, _ => none
  | fuel + 1, left, text =>
    match words.lookup (String.ofList (text.takeWhile isNamePart)) with
    | some value => some (value, text.dropWhile isNamePart)
    | none =>
      match name? text with
      | some ("Some", rest) =>
        match left, skipGaps rest with
        | inner + 1, '(' :: inside => do
          let (value, after) ← value? fuel inner (skipGaps inside)
          match skipGaps after with
          | ')' :: final => return (value, final)
          | ',' :: others =>
            let ')' :: final := skipGaps others | none
            return (value, final)
          | _ => none
        | _, _ => none
      | some (_, rest) =>
        match skipGaps rest with
        | '(' :: inside => fields? fuel left inside
        | others => some (.null, others)
      | none =>
        match text with
        | '(' :: ')' :: rest => some (.null, rest)
        | '(' :: inside => fields? fuel left inside
        | '[' :: rest => do
          let (items, after) ← items? fuel (← inside? left) ']' rest
          return (.list items, after)
        | '\x7b' :: rest => do
          let (entries, after) ← entries? fuel (← inside? left) '\x7d' rest
          return (.record (keepLast entries), after)
        | '"' :: rest =>
          (string? (rest.length + 1) rest).map fun found =>
            (.text (String.ofList found.1), found.2)
        | 'r' :: rest => (rawString? rest).map fun found => (.text (String.ofList found.1), found.2)
        | '\'' :: rest => (char? rest).map fun found => (.text (String.singleton found.1), found.2)
        | _ => number? text

/-- The values in parentheses of which the first has been read. With names they
are a record, without names they are a list. -/
def fields? : Nat → Nat → List Char → Option (Value × List Char)
  | 0, _, _ => none
  | fuel + 1, left, text => do
    if ← isTuple? (skipGaps text) then
      let (items, after) ← items? fuel (← inside? left) ')' text
      return (.list items, after)
    else
      let (entries, after) ← entries? fuel (← inside? left) ')' text
      return (.record (keepLast entries), after)

def items? : Nat → Nat → Char → List Char → Option (List Value × List Char)
  | 0, _, _, _ => none
  | fuel + 1, left, final, text =>
    match skipGaps text with
    | [] => none
    | c :: rest =>
      if c = final then some ([], rest)
      else do
        let (item, after) ← value? fuel left (c :: rest)
        match skipGaps after with
        | ',' :: others =>
          let (items, rest) ← items? fuel left final others
          return (item :: items, rest)
        | d :: others => if d = final then return ([item], others) else none
        | [] => none

/-- The entries before a character that ends the record. In parentheses the keys
are names, in braces they are texts. -/
def entries? : Nat → Nat → Char → List Char → Option (List (String × Value) × List Char)
  | 0, _, _, _ => none
  | fuel + 1, left, final, text =>
    match skipGaps text with
    | [] => none
    | c :: rest =>
      if c = final then some ([], rest)
      else do
        let (key, afterKey) ←
          if final = ')' then name? (c :: rest)
          else if (name? (c :: rest)).isSome then none
          else
            match value? fuel left (c :: rest) with
            | some (.text key, after) => some (key, after)
            | _ => none
        let ':' :: afterColon := skipGaps afterKey | none
        let (value, after) ← value? fuel left (skipGaps afterColon)
        match skipGaps after with
        | ',' :: others =>
          let (entries, rest) ← entries? fuel left final others
          return ((key, value) :: entries, rest)
        | d :: others => if d = final then return ([(key, value)], others) else none
        | [] => none

end

def extensions : List String := ["unwrap_newtypes", "implicit_some", "unwrap_variant_newtypes"]

/-- The text after some marks with gaps after each. -/
def afterMarks? : List String → List Char → Option (List Char)
  | [], text => some text
  | mark :: marks, text =>
    if mark.toList.isPrefixOf text then afterMarks? marks (skipGaps (text.drop mark.length))
    else none

def afterExtensions? : Nat → List Char → Option (List Char)
  | 0, _ => none
  | fuel + 1, text => do
    let (name, rest) ← name? text
    if !extensions.contains name then none
    else
      match skipGaps rest with
      | ',' :: others =>
        let next := skipGaps others
        if next.head?.any isNamePart then afterExtensions? fuel next else return next
      | others => return others

/-- The text after the lines that enable extensions. -/
def afterHeader? : Nat → List Char → Option (List Char)
  | 0, _ => none
  | fuel + 1, text =>
    match text with
    | '#' :: _ => do
      let names ← afterMarks? ["#", "!", "[", "enable", "("] text
      afterHeader? fuel (← afterMarks? [")", "]"] (← afterExtensions? (names.length + 1) names))
    | _ => some text

def parse? (text : List Char) : Option Value := do
  let body ← afterHeader? (text.length + 1) (skipGaps text)
  let (value, rest) ← value? (2 * text.length + 2) maxDepth body
  if (skipGaps rest).isEmpty then return value else none

end Phrasebook.Data.Ron
