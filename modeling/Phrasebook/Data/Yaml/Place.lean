import Phrasebook.Data.Number

/-! Places in YAML texts.

A text follows one of two editions of the language. A place knows its edition,
its line and its column. Lines end with a newline, in the first edition also
with a separator of lines or paragraphs.
-/

set_option autoImplicit false

namespace Phrasebook.Data.Yaml

inductive Edition where
  /-- Edition 1.1: a key stands on one line, tabs indent no block. -/
  | first
  /-- Edition 1.2: what belongs to a key is indented more than the key. -/
  | second
  deriving Repr, DecidableEq

def isGap (c : Char) : Bool := c == ' ' || c == '\t'

def Edition.isBreak (edition : Edition) (c : Char) : Bool :=
  c == '\n' || (edition == .first && (c == '\u2028' || c == '\u2029'))

def Edition.isGapOrBreak (edition : Edition) (c : Char) : Bool := isGap c || edition.isBreak c

structure Place where
  edition : Edition
  rest : List Char
  index : Nat
  line : Nat
  column : Nat
  deriving Repr

namespace Place

def start (edition : Edition) (text : List Char) : Place := ⟨edition, text, 0, 0, 0⟩

def isFirst (place : Place) : Bool := place.edition == .first

def isSecond (place : Place) : Bool := place.edition == .second

/-- The place after one character. The first edition counts bytes. -/
def step (place : Place) : Place :=
  match place.rest with
  | [] => place
  | c :: rest =>
    let index := place.index + (if place.isFirst then c.utf8Size else 1)
    if place.edition.isBreak c then { place with rest, index, line := place.line + 1, column := 0 }
    else { place with rest, index, column := place.column + 1 }

def skip (place : Place) : Nat → Place
  | 0 => place
  | count + 1 => place.step.skip count

def skipWhile (place : Place) (p : Char → Bool) : Place :=
  place.skip (place.rest.takeWhile p).length

def head? (place : Place) : Option Char := place.rest.head?

def startsWith (place : Place) (c : Char) : Bool := place.head? == some c

def atGap (place : Place) : Bool := place.head?.any isGap

def atBreak (place : Place) : Bool := place.head?.any place.edition.isBreak

def atGapOrBreak (place : Place) : Bool := place.head?.any place.edition.isGapOrBreak

def atLineEnd (place : Place) : Bool := place.head?.all place.edition.isBreak

/-- Whether an indicator may end here: at a gap, at a line end, or at the end of the text. -/
def atIndicatorEnd (place : Place) : Bool := place.head?.all place.edition.isGapOrBreak

def afterComment (place : Place) : Place := place.skipWhile fun c => !place.edition.isBreak c

/-- Whether a mark of three characters stands alone at the front of a line. -/
def isMark (place : Place) (mark : List Char) : Bool :=
  place.column == 0 && mark.isPrefixOf place.rest && (place.skip 3).atIndicatorEnd

def isDocumentStart (place : Place) : Bool := place.isMark ['-', '-', '-']

def isDocumentEnd (place : Place) : Bool := place.isMark ['.', '.', '.']

/-- Whether a document starts or ends here. -/
def isMarker (place : Place) : Bool := place.isDocumentStart || place.isDocumentEnd

/-- Pass over gaps and a comment. A comment is set apart from what stands before it. -/
def toLineEnd? (place : Place) : Option Place :=
  let after := place.skipWhile isGap
  if !after.startsWith '#' then some after
  else if place.atGap then some after.afterComment
  else none

end Place

def isFlowIndicator (c : Char) : Bool := [',', '[', ']', '\x7b', '\x7d'].contains c

end Phrasebook.Data.Yaml
