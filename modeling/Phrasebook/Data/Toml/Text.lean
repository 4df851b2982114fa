import Phrasebook.Data.Number

/-! Gaps, strings and keys of TOML texts. Lines end with a newline. -/

set_option autoImplicit false

namespace Phrasebook.Data.Toml

def isGap (c : Char) : Bool := c == ' ' || c == '\t'

def skipGaps (text : List Char) : List Char := text.dropWhile isGap

def skipLines (inComment : Bool) : List Char → List Char
  | [] => []
  | c :: rest =>
    if c = '\n' then skipLines false rest
    else if inComment then skipLines true rest
    else if isGap c then skipLines false rest
    else if c = '#' then skipLines true rest
    else c :: rest

/-- The text after a line end, with a gap and a comment before it. -/
def lineEnd? (text : List Char) : Option (List Char) :=
  match skipGaps text with
  | [] => some []
  | '\n' :: rest => some rest
  | '#' :: rest => some ((rest.dropWhile (· != '\n')).drop 1)
  | _ => none

def escapes : List (Char × Char) :=
  [('b', '\x08'), ('t', '\t'), ('n', '\n'), ('f', '\x0C'), ('r', '\r'), ('"', '"'), ('\\', '\\')]

def escape? : List Char → Option (Char × List Char)
  | [] => none
  | c :: rest =>
    match escapes.lookup c with
    | some escaped => some (escaped, rest)
    | none => do
      let count ← [('u', 4), ('U', 8)].lookup c
      let (code, after) ← hexNumber? count rest
      return (← charOfCode? code, after)

/-- Control characters that no text holds. -/
def isControl (c : Char) : Bool := (c.toNat < 0x20 && c != '\t' && c != '\n') || c == '\x7F'

def basicString? : Nat → List Char → Option (List Char × List Char)
  | 0, _ => none
  | _ + 1, [] => none
  | fuel + 1, c :: rest =>
    if c = '"' then some ([], rest)
    else if c = '\n' then none
    else if c = '\\' then do
      let (escaped, after) ← escape? rest
      let (others, final) ← basicString? fuel after
      return (escaped :: others, final)
    else (basicString? fuel rest).map fun found => (c :: found.1, found.2)

def literalString? (text : List Char) : Option (List Char × List Char) :=
  let content := text.takeWhile (· != '\'')
  match text.dropWhile (· != '\'') with
  | _ :: rest => if content.contains '\n' then none else some (content, rest)
  | [] => none

def string? (quote : Char) (rest : List Char) : Option (List Char × List Char) :=
  if quote = '"' then basicString? (rest.length + 1) rest else literalString? rest

def isGapOrBreak (c : Char) : Bool := isGap c || c == '\n'

/-- The rest of a string on several lines, of which the three opening quotes have
been read. Up to two quotes may stand in front of the three that close it. A
backslash at a line end joins the line with the next one that is not blank. -/
def longString? (quote : Char) : Nat → List Char → Option (List Char × List Char)
  | 0, _ => none
  | _ + 1, [] => none
  | fuel + 1, c :: rest =>
    if c = quote then
      let count := ((c :: rest).takeWhile (· == quote)).length
      if 3 ≤ count then
        some (List.replicate (min count 5 - 3) quote, (c :: rest).drop (min count 5))
      else (longString? quote fuel rest).map fun found => (c :: found.1, found.2)
    else if c = '\\' && quote == '"' then
      if (skipGaps rest).head? == some '\n' then
        longString? quote fuel (rest.dropWhile isGapOrBreak)
      else do
        let (escaped, after) ← escape? rest
        let (others, final) ← longString? quote fuel after
        return (escaped :: others, final)
    else (longString? quote fuel rest).map fun found => (c :: found.1, found.2)

/-- A string whose first quote has been read. A line end right after three
opening quotes does not count. -/
def text? (quote : Char) (rest : List Char) : Option (List Char × List Char) :=
  match rest with
  | first :: second :: inside =>
    if first = quote && second = quote then
      longString? quote (inside.length + 1)
        (if inside.head? == some '\n' then inside.drop 1 else inside)
    else string? quote rest
  | _ => string? quote rest

def isBareKeyChar (c : Char) : Bool := c.isAlphanum || c == '_' || c == '-'

def simpleKey? (text : List Char) : Option (String × List Char) :=
  match text with
  | [] => none
  | c :: rest =>
    if c = '"' || c = '\'' then (string? c rest).map fun found => (String.ofList found.1, found.2)
    else
      let key := text.takeWhile isBareKeyChar
      if key.isEmpty then none else some (String.ofList key, text.dropWhile isBareKeyChar)

/-- The parts of a key, with dots between them, and the text after it. -/
def keyParts? : Nat → List Char → Option (List String × List Char)
  | 0, _ => none
  | fuel + 1, text => do
    let (first, rest) ← simpleKey? (skipGaps text)
    match skipGaps rest with
    | '.' :: others =>
      let (path, final) ← keyParts? fuel others
      return (first :: path, final)
    | final => return ([first], final)

/-- How many parts a key may have, and how many arrays and tables on one line
may stand in each other. -/
def maxDepth : Nat := 79

def key? (text : List Char) : Option (List String × List Char) := do
  let (path, rest) ← keyParts? (text.length + 1) text
  if maxDepth < path.length then none else return (path, rest)

end Phrasebook.Data.Toml
