import Phrasebook.Data.Yaml.Place

/-! Scalars of YAML texts: quoted, plain and block scalars. -/

set_option autoImplicit false

namespace Phrasebook.Data.Yaml

/-- What a tab in the indentation of a later line of a scalar means. -/
inductive TabRule where
  | gap
  /-- It is refused to the left of a column. -/
  | refused (column : Int)
  /-- To the left of a column it stands on blank lines only. -/
  | onBlankLine (column : Int)

/-- A run of gaps and line ends in a scalar: the gaps before the first line end,
and all line ends. -/
structure Run where
  gaps : List Char
  breaks : List Char
  place : Place

def run? (tabs : TabRule) : Nat → Bool → Place → Option Run
  | 0, _, _ => none
  | fuel + 1, onLaterLine, place =>
    match place.rest with
    | [] => some ⟨[], [], place⟩
    | c :: _ =>
      if place.atBreak then
        (run? tabs fuel true place.step).map fun run => ⟨[], c :: run.breaks, run.place⟩
      else if !isGap c then some ⟨[], [], place⟩
      else
        let next : Option Place :=
          if c == '\t' && onLaterLine then
            match tabs with
            | .gap => some place.step
            | .refused column => if (place.column : Int) < column then none else some place.step
            | .onBlankLine column =>
              if (place.column : Int) < column then place.toLineEnd?.filter Place.atLineEnd
              else some place.step
          else some place.step
        (next.bind (run? tabs fuel onLaterLine)).map fun run =>
          ⟨c :: run.gaps, run.breaks, run.place⟩

/-- What a run stands for: one line end is a space, and further ones are kept. -/
def Run.text (run : Run) : List Char :=
  match run.breaks with
  | [] => run.gaps
  | ['\n'] => [' ']
  | '\n' :: more => more
  | breaks => breaks

def simpleEscapes : List (Char × Char) :=
  [('0', '\x00'), ('a', '\x07'), ('b', '\x08'), ('t', '\t'), ('\t', '\t'), ('n', '\n'),
    ('v', '\x0B'), ('f', '\x0C'), ('r', '\r'), ('e', '\x1B'), (' ', ' '), ('"', '"'), ('/', '/'),
    ('\\', '\\'), ('N', '\u0085'), ('_', '\u00A0'), ('L', '\u2028'), ('P', '\u2029')]

/-- Number of hexadecimal digits of an escape that gives a code point. -/
def codeEscapes : List (Char × Nat) := [('x', 2), ('u', 4), ('U', 8)]

/-- The character of an escape after its backslash, and the length of the escape. -/
def escape? (text : List Char) : Option (Char × Nat) := do
  let c ← text.head?
  match simpleEscapes.lookup c with
  | some escaped => return (escaped, 1)
  | none =>
    let count ← codeEscapes.lookup c
    let (code, _) ← hexNumber? count (text.drop 1)
    return (← charOfCode? code, count + 1)

/-- The rest of a quoted scalar whose opening quote has been read. It goes on
over lines that are indented enough, but not over the start or end of a document. -/
def quoted? (indent : Int) (quote : Char) : Nat → Place → Option (List Char × Place)
  | 0, _ => none
  | fuel + 1, place => do
    let tabs : TabRule := if place.isSecond then .refused indent else .gap
    let goesOn (next : Place) : Bool :=
      !next.isMarker && !(next.isSecond && decide ((next.column : Int) < indent))
    match place.rest with
    | [] => none
    | c :: rest =>
      if c = quote then
        if c = '\'' && rest.head? = some '\'' then
          let (others, final) ← quoted? indent quote fuel (place.skip 2)
          return (c :: others, final)
        else return ([], place.step)
      else if place.edition.isGapOrBreak c then
        let run ← run? tabs (rest.length + 2) false place
        if !run.breaks.isEmpty && !goesOn run.place then none
        else
          let (others, final) ← quoted? indent quote fuel run.place
          return (run.text ++ others, final)
      else if c = '\\' && quote = '"' then
        if place.step.atBreak then
          let next := place.skip 2
          let run ← run? tabs (rest.length + 2) true next
          if !next.startsWith quote && !goesOn run.place then none
          else
            let (others, final) ← quoted? indent quote fuel run.place
            return (run.breaks ++ others, final)
        else
          let (escaped, length) ← escape? rest
          let (others, final) ← quoted? indent quote fuel (place.skip (length + 1))
          return (escaped :: others, final)
      else
        let (others, final) ← quoted? indent quote fuel place.step
        return (c :: others, final)

/-- The part of a plain scalar up to a gap or an indicator. In a flow collection a
colon must not touch some indicators in the first edition, and ends before them
in the second. -/
def plainWord? (edition : Edition) (inFlow : Bool) : List Char → Option (List Char)
  | [] => some []
  | c :: rest =>
    let beforeFlow := inFlow && rest.head?.any isFlowIndicator
    if edition.isGapOrBreak c || (inFlow && isFlowIndicator c) then some []
    else if c = ':' && rest.head?.all edition.isGapOrBreak then some []
    else if c = ':' && edition == .second && beforeFlow then some []
    else if c = ':' && edition == .first && (beforeFlow || (inFlow && rest.head? == some '?')) then
      none
    else (plainWord? edition inFlow rest).map (c :: ·)

/-- A plain scalar, and the place after it and after the gaps and line ends that
follow. Outside of flow collections its later lines start at a column or right of it. -/
def plain? (inFlow : Bool) (column : Int) : Nat → Place → Option (List Char × Place)
  | 0, _ => none
  | fuel + 1, place => do
    if place.isMarker || place.startsWith '#' then return ([], place)
    if place.isSecond && inFlow && place.startsWith '-' &&
        place.step.head?.any isFlowIndicator then none
    let word ← plainWord? place.edition inFlow place.rest
    let after := place.skip word.length
    if !after.atGapOrBreak then return (word, after)
    let tabs : TabRule := if place.isSecond then .onBlankLine column else .refused column
    let run ← run? tabs (after.rest.length + 1) false after
    if !inFlow && decide ((run.place.column : Int) < column) then return (word, run.place)
    let (others, final) ← plain? inFlow column fuel run.place
    return (if others.isEmpty then word else word ++ run.text ++ others, final)

/-- Which line ends at the end of a block scalar belong to it. -/
inductive Chomping where
  | strip
  | clip
  | keep
  deriving Repr, DecidableEq

def chomping? : Char → Option Chomping
  | '-' => some .strip
  | '+' => some .keep
  | _ => none

def indentDigit? (c : Char) : Option Nat :=
  if isDigit c && c != '0' then some (c.toNat - '0'.toNat) else none

/-- The chomping and the indentation after the indicator of a block scalar, in
any order, and the number of their characters. -/
def blockHeader? (text : List Char) : Option (Chomping × Option Nat × Nat) :=
  match text with
  | [] => some (.clip, none, 0)
  | c :: rest =>
    match chomping? c with
    | some chomping =>
      match rest.head?.filter isDigit with
      | some digit => (indentDigit? digit).map fun increment => (chomping, some increment, 2)
      | none => some (chomping, none, 1)
    | none =>
      if !isDigit c then some (.clip, none, 0)
      else do
        let increment ← indentDigit? c
        match rest.head?.bind chomping? with
        | some chomping => return (chomping, some increment, 2)
        | none => return (.clip, some increment, 1)

/-- The line ends of blank lines, the widest column that spaces reach, and the
place after the spaces of the next line. Spaces are taken up to a column, if there is one. -/
def blankLines? (limit : Option Nat) : Nat → Place → Option (List Char × Nat × Place)
  | 0, _ => none
  | fuel + 1, place =>
    let spaces := (place.rest.takeWhile (· == ' ')).length
    let taken := (limit.map fun column => min spaces (column - place.column)).getD spaces
    let after := place.skip taken
    if after.isFirst && after.startsWith '\t' && limit.all fun column => after.column < column then
      none
    else if after.atBreak then
      (blankLines? limit fuel after.step).map fun found =>
        (after.rest.take 1 ++ found.1, max after.column found.2.1, found.2.2)
    else some ([], after.column, after)

/-- The lines of a block scalar in one column. Given are the line end before them,
the blank lines after it, and whether the line before starts with a gap; the
result ends with the last line end, the blank lines after it, and the place. -/
def blockLines? (isLiteral : Bool) (column : Nat) :
    Nat → List Char → List Char → Bool → Place → Option (List Char × List Char × List Char × Place)
  | 0, _, _, _, _ => none
  | fuel + 1, lastBreak, blanks, afterGap, place => do
    if place.column ≠ column || place.rest.isEmpty || (column == 0 && place.isMarker) then
      return ([], lastBreak, blanks, place)
    let folds := !isLiteral && lastBreak == ['\n'] && !afterGap && !place.atGap
    let between :=
      if folds then (if blanks.isEmpty then [' '] else blanks) else lastBreak ++ blanks
    let after := place.afterComment
    let line := place.rest.take (place.rest.length - after.rest.length)
    let next := after.step
    let (blanks, _, start) ←
      if after.rest.isEmpty then pure ([], 0, after)
      else blankLines? (some column) (next.rest.length + 1) next
    let (others, final) ←
      blockLines? isLiteral column fuel (after.rest.take 1) blanks place.atGap start
    return (between ++ line ++ others, final)

/-- The column of a block scalar whose indentation its first line gives. -/
def blockColumn (edition : Edition) (indent : Int) (widest : Nat) : Nat :=
  match edition with
  | .first => max widest (max (indent + 1).toNat 1)
  | .second => max widest (indent + 1).toNat

/-- The rest of a block scalar whose indicator has been read, inside a block of
some indent. -/
def block? (isLiteral : Bool) (indent : Int) (place : Place) : Option (List Char × Place) := do
  let (chomping, increment, length) ← blockHeader? place.rest
  let header := place.skip length
  let lineEnd ←
    if header.isSecond then header.toLineEnd?
    else
      let after := header.skipWhile isGap
      pure (if after.startsWith '#' then after.afterComment else after)
  if !lineEnd.atLineEnd then none
  let content := lineEnd.step
  if content.isSecond && content.startsWith '\t' then none
  let known := increment.map fun count => (max indent 0).toNat + count
  let (blanks, widest, start) ← blankLines? known (content.rest.length + 1) content
  let column := known.getD (blockColumn place.edition indent widest)
  if start.isSecond && start.rest.isEmpty then
    let firstBreak := lineEnd.rest.take 1
    let kept :=
      if chomping = .strip || start.line = place.line then []
      else if chomping = .clip || blanks.isEmpty then firstBreak
      else blanks
    return (kept, start)
  else if start.isSecond && start.column < column &&
      decide (indent < (start.column : Int)) then none
  else
    let (text, lastBreak, trailing, final) ←
      blockLines? isLiteral column (start.rest.length + 1) [] blanks false start
    let lastLine :=
      if final.isSecond && final.rest.isEmpty && max column 1 ≤ final.column then ['\n'] else []
    let tail :=
      match chomping with
      | .strip => []
      | .clip => lastBreak ++ lastLine
      | .keep => lastBreak ++ lastLine ++ trailing
    return (text ++ tail, final)

end Phrasebook.Data.Yaml
