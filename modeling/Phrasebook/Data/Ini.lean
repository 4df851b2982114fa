import Phrasebook.Data.Number
import Phrasebook.Text.Blank

/-! Reading INI texts: keys with texts, in sections. -/

set_option autoImplicit false

namespace Phrasebook.Data.Ini

open Phrasebook.Text

def escapes : List (Char × Char) :=
  [('0', '\x00'), ('a', '\x07'), ('b', '\x08'), ('t', '\t'), ('r', '\r'), ('n', '\n')]

/-- The code of a character in four places, the first of which may be a plus sign. -/
def code? (text : List Char) : Option (Nat × List Char) :=
  match text with
  | '+' :: rest => hexNumber? 3 rest
  | _ => hexNumber? 4 text

/-- What an escape stands for, whose backslash has been read. At a line end it
stands for nothing, and most characters stand for themselves. -/
def escape? (text : List Char) : Option (List Char × List Char) :=
  match text with
  | [] => none
  | '\n' :: rest => some ([], rest)
  | 'x' :: rest => do
    let (code, after) ← code? rest
    return ([← charOfCode? code], after)
  | c :: rest => some ([(escapes.lookup c).getD c], rest)

def upTo? (isEnd : Char → Bool) (mayEnd : Bool) : Nat → List Char → Option (List Char × List Char)
  | 0, _ => none
  | _ + 1, [] => if mayEnd then some ([], []) else none
  | fuel + 1, c :: rest =>
    if isEnd c then some ([], c :: rest)
    else if c = '\\' then do
      let (escaped, after) ← escape? rest
      let (others, final) ← upTo? isEnd mayEnd fuel after
      return (escaped ++ others, final)
    else do
      let (others, final) ← upTo? isEnd mayEnd fuel rest
      return (c :: others, final)

def isLineEnd (c : Char) : Bool := c == '\n' || c == '\r'

def isKeyEnd (c : Char) : Bool := c == '=' || c == ':'

def lineRest? (text : List Char) : Option (List Char × List Char) :=
  upTo? isLineEnd true (text.length + 1) text

/-- The value of a key: the rest of the line, of which the first part may stand in quotes. -/
def value? (text : List Char) : Option (List Char × List Char) :=
  match text.dropWhile fun c => isBlank c && !isLineEnd c with
  | [] => some ([], [])
  | c :: rest =>
    if c = '"' || c = '\'' then do
      let (quoted, after) ← upTo? (· == c) false (rest.length + 1) rest
      let (others, final) ← lineRest? (after.drop 1)
      return (quoted ++ others, final)
    else lineRest? (c :: rest)

def skipBlanks (atStart : Bool) : List Char → Bool × List Char
  | [] => (atStart, [])
  | c :: rest => if isBlank c then skipBlanks (c == '\n') rest else (atStart, c :: rest)

/-- A section with its name, which the keys before all sections lack. -/
structure Section where
  name : Option String
  entries : List (String × Value)

def Section.toEntries (part : Section) : List (String × Value) :=
  match part.name with
  | none => part.entries
  | some name => [(name, .record (keepLast part.entries))]

/-- Read keys and sections into the section that is open. A comment starts a line. -/
def sections? : Nat → Section → Bool → List Char → Option (List Section)
  | 0, _, _, _ => none
  | fuel + 1, current, atStart, text =>
    match skipBlanks atStart text with
    | (_, []) => some [current]
    | (startsLine, c :: rest) =>
      if c = ';' || c = '#' then
        if startsLine then
          sections? fuel current true ((rest.dropWhile (· != '\n')).drop 1)
        else none
      else if c = '[' then do
        let (name, after) ← upTo? (· == ']') false (rest.length + 1) rest
        let others ← sections? fuel ⟨some (String.ofList (trim name)), []⟩ false (after.drop 1)
        return current :: others
      else do
        let (key, after) ← upTo? isKeyEnd false (rest.length + 2) (c :: rest)
        let (value, final) ← value? (after.drop 1)
        let entry := (String.ofList (trim key), Value.text (String.ofList (trim value)))
        if (trim key).isEmpty then none
        else sections? fuel ⟨current.name, current.entries ++ [entry]⟩ false final

def parse? (text : List Char) : Option Value :=
  (sections? (text.length + 1) ⟨none, []⟩ true text).map fun sections =>
    .record (keepLast (sections.flatMap Section.toEntries))

end Phrasebook.Data.Ini
