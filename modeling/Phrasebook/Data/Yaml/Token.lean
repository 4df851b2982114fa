import Phrasebook.Data.Yaml.Place
import Phrasebook.Text.Utf8

/-! Tokens of YAML texts, and the parts of which anchors, tags and directives consist. -/

set_option autoImplicit false

namespace Phrasebook.Data.Yaml

open Phrasebook.Text

inductive Token where
  | documentStart
  | documentEnd
  | version
  /-- What a handle at the front of a tag stands for. -/
  | tagHandle (handle : List Char) (meaning : List Char)
  | blockList
  | blockRecord
  | blockEnd
  | flowList
  | flowListEnd
  | flowRecord
  | flowRecordEnd
  | comma
  | dash
  | key
  | colon
  | alias (name : List Char)
  | anchor (name : List Char)
  | tag (handle : List Char) (suffix : List Char)
  | scalar (isPlain : Bool) (text : List Char)
  deriving Repr, DecidableEq

def isWordChar (c : Char) : Bool := c.isAlphanum || c == '_' || c == '-'

def anchorName? (place : Place) : Option (List Char × Place) :=
  let isNameChar (c : Char) : Bool :=
    if place.isFirst then isWordChar c
    else !place.edition.isGapOrBreak c && !isFlowIndicator c && c != '\uFEFF'
  let name := place.rest.takeWhile isNameChar
  let after := place.skip name.length
  let closers := ['?', ':', ',', ']', '\x7d', '%', '@', '\x60']
  if name.isEmpty then none
  else if place.isFirst && !after.atIndicatorEnd && !after.head?.any closers.contains then none
  else some (name, after)

/-- Characters of a tag as a whole. Its short forms have no flow indicators. -/
def isTagChar (edition : Edition) (isWhole : Bool) (c : Char) : Bool :=
  match edition with
  | .first =>
    isWordChar c || ";/?:@&=+$.!~*'()%".toList.contains c || (isWhole && [',', '[', ']'].contains c)
  | .second =>
    c.isAlphanum || c == '-' || "#;/?:@&=+$_.~*'()%".toList.contains c ||
      (isWhole && ['!', ',', '[', ']'].contains c)

/-- The bytes of escapes with percent signs at the front of a text. -/
def escapedBytes? : Nat → List Char → Option (List UInt8)
  | 0, _ => some []
  | count + 1, text =>
    match text with
    | '%' :: digits => do
      let (byte, rest) ← hexNumber? 2 digits
      return UInt8.ofNat byte :: (← escapedBytes? count rest)
    | _ => none

/-- The characters of a tag, with escapes for the bytes of some characters. -/
def tagText? (isWhole : Bool) : Nat → Place → Option (List Char × Place)
  | 0, _ => none
  | fuel + 1, place => do
    let some c := place.head? | return ([], place)
    if c = '%' then
      let lead ← (← escapedBytes? 1 place.rest).head?
      let length := Utf8.announced lead
      let [character] ← Utf8.decode? (← escapedBytes? length place.rest) | none
      let (others, final) ← tagText? isWhole fuel (place.skip (3 * length))
      return (character :: others, final)
    else if isTagChar place.edition isWhole c then
      let (others, final) ← tagText? isWhole fuel place.step
      return (c :: others, final)
    else return ([], place)

/-- A handle: an exclamation mark, and a word with another one after it. Without the
other mark it is no handle but the start of a tag. -/
def tagHandle? (place : Place) : Option (List Char × Place) :=
  if !place.startsWith '!' then none
  else
    let word := place.step.rest.takeWhile isWordChar
    let after := place.step.skip word.length
    if after.startsWith '!' then some ('!' :: word ++ ['!'], after.step)
    else some ('!' :: word, after)

/-- Whether a handle has both of its marks. -/
def isClosedHandle (handle : List Char) : Bool :=
  2 ≤ handle.length && handle.getLast? == some '!'

def tag? (inFlow : Bool) (place : Place) : Option (Token × Place) := do
  let fuel := place.rest.length + 1
  let (tag, after) ←
    if place.step.startsWith '<' then do
      let (suffix, after) ← tagText? true fuel (place.skip 2)
      if suffix.isEmpty && place.isFirst || !after.startsWith '>' then none
      else pure (Token.tag [] suffix, after.step)
    else do
      let (handle, rest) ← tagHandle? place
      let (suffix, after) ← tagText? false fuel rest
      if isClosedHandle handle then
        if suffix.isEmpty then none else pure (Token.tag handle suffix, after)
      else
        match handle.drop 1 ++ suffix with
        | [] => pure (Token.tag [] ['!'], after)
        | whole => pure (Token.tag ['!'] whole, after)
  let mayEnd : Bool :=
    after.atIndicatorEnd ||
      (inFlow && (if place.isFirst then after.startsWith ',' else after.head?.any isFlowIndicator))
  if mayEnd then return (tag, after) else none

/-- The number of a version, of at most nine digits. -/
def versionNumber? (place : Place) : Option (Nat × Place) :=
  let digits := place.rest.takeWhile isDigit
  if digits.isEmpty || 9 < digits.length then none
  else some (digitsValue 10 digits, place.skip digits.length)

/-- A version. The first edition knows itself and the second one. -/
def version? (place : Place) : Option (Token × Place) := do
  let (major, rest) ← versionNumber? (place.skipWhile isGap)
  if !rest.startsWith '.' then none
  let (minor, after) ← versionNumber? rest.step
  if place.isFirst && !(major == 1 && (minor == 1 || minor == 2)) then none
  else return (.version, after)

/-- A handle and what it stands for. In the second edition the meaning does not
start with an indicator of flow collections. -/
def handleMeaning? (place : Place) : Option (Token × Place) := do
  let (handle, rest) ← tagHandle? (place.skipWhile isGap)
  if handle ≠ ['!'] && !isClosedHandle handle then none
  if rest.isFirst && !rest.atGap then none
  let start := rest.skipWhile isGap
  let (meaning, after) ← tagText? true (start.rest.length + 1) start
  if meaning.isEmpty || !after.atIndicatorEnd then none
  else if start.isSecond && start.head?.any isFlowIndicator then none
  else return (.tagHandle handle meaning, after)

/-- A directive whose percent sign has been read, with its line. The second
edition takes unknown ones for handles that stand for nothing. -/
def directive? (place : Place) : Option (Token × Place) := do
  let name := place.rest.takeWhile isWordChar
  let rest := place.skip name.length
  if name.isEmpty || !rest.atIndicatorEnd then none
  let (token, after) ←
    match String.ofList name with
    | "YAML" => version? rest
    | "TAG" => handleMeaning? rest
    | _ => if place.isFirst then none else pure (Token.tagHandle [] [], rest.afterComment)
  let lineEnd ←
    if place.isSecond then after.toLineEnd?
    else
      let next := after.skipWhile isGap
      pure (if next.startsWith '#' then next.afterComment else next)
  if lineEnd.atLineEnd then return (token, lineEnd.step) else none

end Phrasebook.Data.Yaml
