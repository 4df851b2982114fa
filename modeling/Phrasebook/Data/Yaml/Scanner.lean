import Phrasebook.Data.Yaml.Scalar
import Phrasebook.Data.Yaml.Token

/-! Finding the tokens of a YAML text.

A key is known as one only at its colon, so the places are kept where keys may
have started. Blocks are opened and closed by columns.
-/

set_option autoImplicit false

namespace Phrasebook.Data.Yaml

/-- A place where a key may have started. -/
structure KeyStart where
  place : Place
  /-- The number of tokens before the key. -/
  position : Nat
  /-- Whether nothing but a key can stand there. -/
  isRequired : Bool
  deriving Repr

structure Scanner where
  place : Place
  /-- The tokens so far, the last one first. -/
  tokens : List Token := []
  /-- The last start of a key at each level, the innermost first. -/
  keys : List (Option KeyStart) := [none]
  indent : Int := -1
  /-- The indents outside of the last one, each with whether a block started after it. -/
  outer : List (Int × Bool) := []
  /-- How many flow collections are open. -/
  depth : Nat := 0
  mayStartKey : Bool := true
  /-- Whether only gaps stand before the place on its line. -/
  isFresh : Bool := true
  /-- Whether a flow record has started since the last record without braces ended. -/
  hasBraces : Bool := false
  /-- Whether a record without braces is open. -/
  inPair : Bool := false
  /-- Where a colon may touch the value after it. -/
  adjacent : Option Nat := none
  deriving Repr

abbrev Scan := StateT Scanner Option

namespace Scan

def isSecond : Scan Bool := return (← get).place.isSecond

/-- Whether only gaps stand before the end of a text on its last line. -/
def freshAfter (edition : Edition) (isFresh : Bool) (text : List Char) : Bool :=
  text.foldl (fun fresh c => edition.isBreak c || (fresh && isGap c)) isFresh

def moveTo (place : Place) : Scan Unit := modify fun s =>
  let passed := s.place.rest.take (s.place.rest.length - place.rest.length)
  { s with place, isFresh := freshAfter place.edition s.isFresh passed }

def skip (count : Nat) : Scan Unit := do moveTo ((← get).place.skip count)

/-- In the second edition, pass over gaps and a comment after a token. -/
def closeLine : Scan Unit := do
  if ← isSecond then moveTo (← (← get).place.toLineEnd?)

def push (token : Token) : Scan Unit := modify fun s => { s with tokens := token :: s.tokens }

/-- Insert a token before the tokens from a position on. -/
def insert (position : Nat) (token : Token) : Scan Unit := modify fun s =>
  let later := s.tokens.length - position
  { s with tokens := s.tokens.take later ++ token :: s.tokens.drop later }

def allowKey (mayStartKey : Bool) : Scan Unit := modify fun s => { s with mayStartKey }

/-- Whether a colon comes too late for a key. -/
def isStale (s : Scanner) (key : KeyStart) : Bool :=
  (s.place.isFirst || s.depth == 0) &&
    (decide (key.place.line < s.place.line) || decide (key.place.index + 1024 < s.place.index))

def dropStaleKeys : Scan Unit := do
  let s ← get
  let keys ← s.keys.mapM fun key =>
    match key with
    | none => some none
    | some start =>
      if !isStale s start then some (some start) else if start.isRequired then none else some none
  set { s with keys }

def dropKey : Scan Unit := do
  let s ← get
  match s.keys with
  | some start :: rest => if start.isRequired then failure else set { s with keys := none :: rest }
  | _ => pure ()

/-- Keep the place as the start of a key, if a key may start here. -/
def keepKey : Scan Unit := do
  if (← get).mayStartKey then
    dropKey
    modify fun s =>
      let isRequired := s.depth == 0 && s.indent == (s.place.column : Int) &&
        s.outer.head?.any fun outer => outer.2
      { s with keys := some ⟨s.place, s.tokens.length, isRequired⟩ :: s.keys.drop 1 }

/-- The indent that is left after closing the ones right of a column, the
indents outside of it, and the number of blocks that are closed. -/
def closeIndents (column : Int) : Int → List (Int × Bool) → Int × List (Int × Bool) × Nat
  | indent, [] => (indent, [], 0)
  | indent, (next, isBlock) :: rest =>
    if column < indent then
      let (left, outer, count) := closeIndents column next rest
      (left, outer, if isBlock then count + 1 else count)
    else (indent, (next, isBlock) :: rest, 0)

def closeBlocks (column : Int) : Scan Unit := modify fun s =>
  if 0 < s.depth then s
  else
    let (indent, outer, count) := closeIndents column s.indent s.outer
    { s with indent, outer, tokens := List.replicate count Token.blockEnd ++ s.tokens }

/-- Leave an indent that no block has started at. -/
def leaveInside : Scan Unit := modify fun s =>
  match s.outer with
  | (indent, false) :: outer => { s with indent, outer }
  | _ => s

/-- In the second edition, ask for one more column of indentation inside a block. -/
def enterInside : Scan Unit := modify fun s =>
  if s.place.isSecond && s.depth == 0 && s.outer.head?.any fun outer => outer.2 then
    { s with indent := s.indent + 1, outer := (s.indent, false) :: s.outer }
  else s

/-- Open a block at a column right of the last indent; its token comes at a position. -/
def openBlock (column position : Nat) (token : Token) : Scan Unit := do
  if (← get).depth = 0 then
    if (← get).indent ≤ (column : Int) then leaveInside
    if (← get).indent < (column : Int) then
      modify fun s => { s with indent := column, outer := (s.indent, true) :: s.outer }
      insert position token

def closePair : Scan Unit := do
  if (← get).inPair then
    modify fun s => { s with inPair := false, hasBraces := false }
    push .flowRecordEnd

/-- Pass over gaps, line ends and comments between tokens. In the first edition,
tabs stand only where no key may start; in the second they stand left of a block
only on blank lines. -/
def passGaps : Nat → Scan Unit
  | 0 => failure
  | fuel + 1 => do
    let s ← get
    match s.place.head? with
    | none => pure ()
    | some c =>
      if s.place.atBreak then
        skip 1
        if s.depth = 0 then allowKey true
        passGaps fuel
      else if c = '#' then
        moveTo s.place.afterComment
        passGaps fuel
      else if c = '\t' && s.place.isSecond && s.isFresh && !s.outer.isEmpty &&
          decide ((s.place.column : Int) < s.indent) then
        closeLine
        if (← get).place.atLineEnd then passGaps fuel else failure
      else
        let isPassed :=
          if s.place.isSecond then isGap c
          else c == ' ' || (c == '\t' && (0 < s.depth || !s.mayStartKey)) ||
            (c == '\uFEFF' && s.place.column == 0)
        if isPassed then
          skip 1
          passGaps fuel

def toNextToken : Scan Unit := do passGaps ((← get).place.rest.length + 1)

def directive : Scan Unit := do
  closeBlocks (-1)
  dropKey
  allowKey false
  let (token, after) ← directive? (← get).place.step
  moveTo after
  push token

def documentMarker (token : Token) : Scan Unit := do
  closeBlocks (-1)
  dropKey
  allowKey false
  skip 3
  push token
  if (← isSecond) && token == .documentEnd then
    closeLine
    if !(← get).place.atLineEnd then failure

def flowStart (token : Token) : Scan Unit := do
  keepKey
  enterInside
  let depth := (← get).depth + 1
  if (← isSecond) && depth == UInt8.size then failure
  modify fun s => { s with depth, keys := none :: s.keys }
  allowKey true
  skip 1
  if token == .flowRecord then modify fun s => { s with hasBraces := true }
  closeLine
  push token

def flowEnd (token : Token) : Scan Unit := do
  dropKey
  modify fun s =>
    if s.depth = 0 then s else { s with depth := s.depth - 1, keys := s.keys.drop 1 }
  allowKey false
  closePair
  skip 1
  closeLine
  modify fun s => if 0 < s.depth then { s with adjacent := some s.place.index } else s
  push token

def comma : Scan Unit := do
  dropKey
  allowKey true
  closePair
  skip 1
  closeLine
  push .comma

def dash : Scan Unit := do
  let s ← get
  if s.depth = 0 then
    if !s.mayStartKey then failure
    openBlock s.place.column s.tokens.length .blockList
  else if ← isSecond then failure
  skip 1
  if ← isSecond then
    let gap := (← get).place.rest.takeWhile isGap
    closeLine
    let after := (← get).place
    if gap.contains '\t' && after.startsWith '-' && after.step.atIndicatorEnd then failure
    if after.atBreak || after.head?.any isFlowIndicator then enterInside
  dropKey
  allowKey true
  push .dash

def passSpaces : Nat → Scan Unit
  | 0 => failure
  | fuel + 1 => do
    let s ← get
    if s.place.atBreak then
      skip 1
      if s.depth = 0 then allowKey true
      passSpaces fuel
    else if s.place.startsWith '#' then
      moveTo s.place.afterComment
      passSpaces fuel
    else if s.place.startsWith ' ' then
      skip 1
      passSpaces fuel
    else if s.place.startsWith '\t' then failure

def questionMark : Scan Unit := do
  let s ← get
  if s.depth = 0 then
    if !s.mayStartKey then failure
    openBlock s.place.column s.tokens.length .blockRecord
  else modify fun s => { s with hasBraces := true }
  dropKey
  allowKey (s.depth == 0)
  skip 1
  if ← isSecond then
    let place := (← get).place
    if !place.startsWith ' ' && !place.atBreak then failure
    passSpaces (place.rest.length + 1)
  push .key

/-- A colon; what stands before it is a key if one may have started there. -/
def colon : Scan Unit := do
  let s ← get
  let inPair := s.place.isSecond && 0 < s.depth && !s.hasBraces
  modify fun s => { s with inPair }
  skip 1
  if (← isSecond) && (← get).place.startsWith '\t' then
    let gap := (← get).place.rest.takeWhile isGap
    closeLine
    if !gap.contains ' ' && (← get).place.head?.any isWordChar then failure
  match s.keys.head?.join with
  | some start =>
    insert start.position .key
    if inPair then
      if start.place.line < s.place.line then failure
      insert start.position .flowRecord
    openBlock start.place.column start.position .blockRecord
    enterInside
    modify fun s => { s with keys := none :: s.keys.drop 1 }
    allowKey false
  | none =>
    if inPair then push .flowRecord
    if s.depth = 0 then
      if !s.mayStartKey then failure
      openBlock s.place.column (← get).tokens.length .blockRecord
    enterInside
    allowKey (s.depth == 0)
  push .colon

def anchor (isAlias : Bool) : Scan Unit := do
  keepKey
  allowKey false
  let (name, after) ← anchorName? (← get).place.step
  moveTo after
  push (if isAlias then .alias name else .anchor name)

def tag : Scan Unit := do
  keepKey
  allowKey false
  let s ← get
  let (token, after) ← tag? (0 < s.depth) s.place
  moveTo after
  push token

def blockScalar (isLiteral : Bool) : Scan Unit := do
  if ← isSecond then keepKey else dropKey
  allowKey true
  skip 1
  leaveInside
  let s ← get
  let (text, after) ← block? isLiteral s.indent s.place
  moveTo after
  push (.scalar false text)

def quotedScalar (quote : Char) : Scan Unit := do
  keepKey
  allowKey false
  let s ← get
  let (text, after) ← quoted? s.indent quote (s.place.rest.length + 1) s.place.step
  moveTo after
  if ← isSecond then
    closeLine
    let next := (← get).place
    let mayEnd :=
      if s.depth = 0 then next.atLineEnd || (next.startsWith ':' && next.line == s.place.line)
      else next.atLineEnd || next.head?.any [',', '\x7d', ']', ':'].contains
    if !mayEnd then failure
    toNextToken
    modify fun s => { s with adjacent := some s.place.index }
  push (.scalar false text)

def plainScalar : Scan Unit := do
  keepKey
  allowKey false
  leaveInside
  let s ← get
  let inFlow : Bool := 0 < s.depth
  if (← isSecond) && inFlow && decide ((s.place.column : Int) < s.indent + 1) then failure
  let (text, after) ← plain? inFlow (s.indent + 1) (s.place.rest.length + 1) s.place
  if text.isEmpty then failure
  moveTo after
  if s.place.line < after.line && (← get).isFresh then allowKey true
  push (.scalar true text)

/-- Characters that no plain scalar starts with in the first edition. -/
def indicators : List Char :=
  ['-', '?', ':', ',', '[', ']', '\x7b', '\x7d', '#', '&', '*', '!', '|', '>', '\'', '"', '%', '@',
    '\x60']

/-- Whether a plain scalar can start here, after what starts other tokens. -/
def startsPlain (s : Scanner) : Bool :=
  match s.place.rest with
  | [] => false
  | c :: rest =>
    if s.place.isSecond then c != '%' && c != '@' && c != '\x60'
    else
      !s.place.atGapOrBreak &&
        (!indicators.contains c || (c == '-' && !rest.head?.any isGap) ||
          (s.depth == 0 && (c == '?' || c == ':') && !s.place.step.atIndicatorEnd))

/-- Whether a colon here stands between a key and its value. -/
def isColon (s : Scanner) : Bool :=
  s.place.startsWith ':' &&
    (s.place.step.atIndicatorEnd ||
      (0 < s.depth && (s.place.isFirst || s.place.step.head?.any isFlowIndicator ||
        s.adjacent == some s.place.index)))

/-- The token at the next place that is not blank; no token is left at the end. -/
def token : Scan Unit := do
  let s ← get
  let standsAlone := s.place.step.atIndicatorEnd
  if s.place.column = 0 && s.place.startsWith '%' then directive
  else if s.place.isDocumentStart then documentMarker .documentStart
  else if s.place.isDocumentEnd then documentMarker .documentEnd
  else if s.place.isSecond && decide ((s.place.column : Int) < s.indent) then failure
  else if s.place.startsWith '-' && standsAlone then dash
  else if s.place.startsWith '?' && (standsAlone || (s.place.isFirst && 0 < s.depth)) then
    questionMark
  else if isColon s then colon
  else
    match s.place.head? with
    | some '[' => flowStart .flowList
    | some '\x7b' => flowStart .flowRecord
    | some ']' => flowEnd .flowListEnd
    | some '\x7d' => flowEnd .flowRecordEnd
    | some ',' => comma
    | some '*' => anchor true
    | some '&' => anchor false
    | some '!' => tag
    | some '\'' => quotedScalar '\''
    | some '"' => quotedScalar '"'
    | some c =>
      if s.depth = 0 && (c == '|' || c == '>') then blockScalar (c == '|')
      else if startsPlain s then plainScalar
      else failure
    | none => failure

def tokens : Nat → Scan Unit
  | 0 => failure
  | fuel + 1 => do
    toNextToken
    dropStaleKeys
    closeBlocks (← get).place.column
    if (← get).place.rest.isEmpty then
      if (← get).keys.any fun key => key.any KeyStart.isRequired then failure
      closeBlocks (-1)
    else
      token
      tokens fuel

end Scan

/-- Line ends of all kinds as newlines. Separators of lines and paragraphs stay. -/
def normalizeBreaks (edition : Edition) : List Char → List Char
  | [] => []
  | '\r' :: '\n' :: rest => '\n' :: normalizeBreaks edition rest
  | c :: rest =>
    (if c = '\r' || (c = '\u0085' && edition == .first) then '\n' else c) ::
      normalizeBreaks edition rest

/-- Characters that a text of the first edition may hold. -/
def isAllowed (c : Char) : Bool :=
  ['\t', '\n', '\r', '\u0085'].contains c || (' ' ≤ c && c ≤ '~') ||
    (decide (0xA0 ≤ c.toNat) && c != '\uFFFE' && c != '\uFFFF')

/-- The text that tokens are found in. A text of the second edition ends at a null character. -/
def content? (edition : Edition) (source : List Char) : Option (List Char) :=
  match edition with
  | .first =>
    let text := Phrasebook.Text.Utf8.withoutMark source
    if text.all isAllowed then some (normalizeBreaks edition text) else none
  | .second => some (normalizeBreaks edition (source.takeWhile (· != '\x00')))

def tokens? (edition : Edition) (source : List Char) : Option (List Token) := do
  let text ← content? edition source
  let (_, final) ← (Scan.tokens (text.length + 1)).run { place := .start edition text }
  return final.tokens.reverse

end Phrasebook.Data.Yaml
