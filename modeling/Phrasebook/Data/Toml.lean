import Phrasebook.Data.Number
import Phrasebook.Data.Toml.Number
import Phrasebook.Data.Toml.Table
import Phrasebook.Data.Toml.Text
import Phrasebook.Text.Utf8

/-! Reading TOML texts: pairs, tables and arrays of tables. -/

set_option autoImplicit false

namespace Phrasebook.Data.Toml

open Phrasebook.Text

mutual

def value? : Nat → Nat → List Char → Option (Value × List Char)
  | 0, _, _ => none
  | fuel + 1, depth, text =>
    match text with
    | [] => none
    | c :: rest =>
      if c = '"' || c = '\'' then
        (text? c rest).map fun found => (.text (String.ofList found.1), found.2)
      else if c = '[' then
        if depth = maxDepth then none
        else (items? fuel (depth + 1) rest).map fun found => (.list found.1, found.2)
      else if c = '\x7b' then
        if depth = maxDepth then none
        else
          match skipGaps rest with
          | '\x7d' :: after => some (.record [], after)
          | others => (pairs? fuel (depth + 1) [] others).map fun found =>
              (.record (entriesToValues found.1), found.2)
      else if startsDay text || startsTime text then date? text
      else (word? (text.takeWhile isWordChar)).map fun value => (value, text.dropWhile isWordChar)

def items? : Nat → Nat → List Char → Option (List Value × List Char)
  | 0, _, _ => none
  | fuel + 1, depth, text => do
    match skipLines false text with
    | ']' :: after => return ([], after)
    | start =>
      let (item, rest) ← value? fuel depth start
      match skipLines false rest with
      | ']' :: after => return ([item], after)
      | ',' :: others =>
        let (items, after) ← items? fuel depth others
        return (item :: items, after)
      | _ => none

/-- The pairs of a table on one line, of which there is at least one more. -/
def pairs? : Nat → Nat → Entries → List Char → Option (Entries × List Char)
  | 0, _, _, _ => none
  | fuel + 1, depth, entries, text => do
    let (path, rest) ← key? text
    let '=' :: afterEquals := rest | none
    let (value, rest) ← value? fuel depth (skipGaps afterEquals)
    let changed ← insertPair? value path entries
    match skipGaps rest with
    | '\x7d' :: after => return (changed, after)
    | ',' :: others => pairs? fuel depth changed others
    | _ => none

end

/-- A header whose first bracket has been read: its path, and whether it starts
a table of an array. -/
def header? (text : List Char) : Option (List String × Bool × List Char) :=
  match text with
  | '[' :: rest => do
    let (path, after) ← key? rest
    match after with
    | ']' :: ']' :: others => return (path, true, others)
    | _ => none
  | _ => do
    let (path, after) ← key? text
    match after with
    | ']' :: others => return (path, false, others)
    | _ => none

/-- Read headers and pairs, the pairs into the table of the last header. -/
def document? : Nat → List String → Entries → List Char → Option Entries
  | 0, _, _, _ => none
  | fuel + 1, current, entries, text => do
    match skipLines false text with
    | [] => return entries
    | '[' :: rest =>
      let (path, inArray, after) ← header? rest
      let final ← path.getLast?
      let change := if inArray then extendTables? final else defineTable? final
      let changed ← alterAt? change path.dropLast entries
      document? fuel path changed (← lineEnd? after)
    | start =>
      let (path, rest) ← key? start
      let '=' :: afterEquals := rest | none
      let (value, after) ← value? (2 * afterEquals.length + 2) 0 (skipGaps afterEquals)
      let changed ← alterAt? (insertPair? value path) current entries
      document? fuel current changed (← lineEnd? after)

/-- Line ends of both kinds as newlines. -/
def normalizeBreaks : List Char → List Char
  | [] => []
  | '\r' :: '\n' :: rest => '\n' :: normalizeBreaks rest
  | c :: rest => c :: normalizeBreaks rest

def parse? (source : List Char) : Option Value :=
  let text := normalizeBreaks (Utf8.withoutMark source)
  if text.any isControl then none
  else
    (document? (text.length + 1) [] [] text).map fun entries => .record (entriesToValues entries)

end Phrasebook.Data.Toml
