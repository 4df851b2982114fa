import Phrasebook.Cursor
import Phrasebook.MatchResult
import Phrasebook.Template.Pattern

/-! Matching a whole text against a pattern.

A pattern is matched part by part. Punctuation of the text, with the separators
after it, is passed over before each part. Where a part can be matched in more
than one way, the ways are tried in order and the first one that lets the rest
of the pattern match is taken: the alternatives of a group from left to right
and then its absence, the ends of a slot's value word by word.
-/

set_option autoImplicit false

namespace Phrasebook

open Text

/-- What a text is matched with besides the pattern. -/
structure Matcher where
  orthography : Orthography
  entity? : String → Option Entity
  /-- Put French no-break spaces back into values. -/
  respaces : Bool

structure Match where
  captures : Captures
  bytes : Nat
  deriving Repr, DecidableEq

/-- The bytes of the characters that are neither separators nor blanks. -/
def Orthography.significantLength (o : Orthography) (text : List Char) : Nat :=
  byteLength (text.filter fun c => !o.isSeparator c && !isBlank c)

namespace Match

def empty : Match := ⟨[], 0⟩

def addBytes (found : Match) (bytes : Nat) : Match := { found with bytes := found.bytes + bytes }

def addCapture (found : Match) (name : String) (value : EntityValue) : Match :=
  { found with captures := found.captures.addIfNew name value }

end Match

/-- The name of the entity that a slot refers to: its name up to a colon. -/
def slotClass (name : List Char) : String := String.ofList (name.takeWhile (· != ':'))

namespace Matcher

/-- The entity of a slot; a slot of no registered entity takes any text. -/
def entityOf (m : Matcher) (name : List Char) : Entity :=
  (m.entity? (slotClass name)).getD (.any (slotClass name))

/-- Pass over punctuation, and over all separators after it. -/
def settle (m : Matcher) (cursor : Cursor) : Cursor :=
  if cursor.rest.head?.any m.orthography.isInputPunctuation then
    (cursor.skip m.orthography.isInputPunctuation).skip m.orthography.isSeparator
  else cursor

/-- The texts from a place on that a slot tries, in order: with limited greed
from one word up, otherwise from all words down. -/
def candidates (m : Matcher) (entity : Entity) (text : List Char) : List (List Char) :=
  if 0 < entity.greed then m.orthography.grown entity.greed text
  else m.orthography.shrunk (m.orthography.trimEnd text)

def capture? (m : Matcher) (entity : Entity) (text : List Char) : Option EntityValue :=
  if m.orthography.trimEnd text = [] then none
  else
    (entity.value? (m.orthography.trimEnd text)).map fun value =>
      { value := String.ofList (if m.respaces then FrenchSpacing.restore value else value)
        type := entity.type }

/-- Try to end a slot's value after `taken` characters of the text at `start`. -/
def tryCapture (m : Matcher) (entity : Entity) (name : List Char) (start : Cursor)
    (taken : List Char) (matchRest : Cursor → Option Match) : Option Match :=
  match m.capture? entity taken with
  | none => none
  | some value =>
    (matchRest (start.forward taken.length)).map fun found =>
      (found.addCapture (String.ofList name) value).addBytes
        (m.orthography.significantLength (m.orthography.trimEnd taken))

/-- Match a slot at a settled place. A slot that may be passed over leaves the
place as it is. -/
def matchSlot (m : Matcher) (name : List Char) (cursor : Cursor)
    (matchRest : Cursor → Option Match) : Option Match :=
  let entity := m.entityOf name
  let start := cursor.skip m.orthography.isSeparator
  match (m.candidates entity start.rest).findSome? fun taken =>
      m.tryCapture entity name start taken matchRest with
  | some found => some found
  | none => if 0 < entity.greed && !entity.isRequired then matchRest cursor else none

/-- Match a space at a settled place: whitespace of the text, or nothing at a
word boundary. -/
def matchSpace (m : Matcher) (cursor : Cursor) (matchRest : Cursor → Option Match) :
    Option Match :=
  if cursor.rest.head?.any m.orthography.isSpace then
    matchRest (cursor.skip m.orthography.isSpace)
  else if m.orthography.isWordBoundary cursor then matchRest cursor
  else none

theorem sizeOf_append_parts (first second : List Part) :
    sizeOf (first ++ second) + 1 = sizeOf first + sizeOf second := by
  induction first with
  | nil => simp; omega
  | cons part rest ih => simp; omega

mutual

/-- Match the rest of a text, from a place on, against a sequence of parts. -/
def matchParts (m : Matcher) (parts : List Part) (cursor : Cursor) : Option Match :=
  match parts with
  | [] =>
    if (m.settle cursor).rest.all m.orthography.isSeparator then some .empty else none
  | .letter c :: rest =>
    match (m.settle cursor).rest with
    | [] => none
    | d :: _ =>
      if d = c then
        (m.matchParts rest ((m.settle cursor).forward 1)).map (·.addBytes c.utf8Size)
      else none
  | .space :: rest => m.matchSpace (m.settle cursor) fun next => m.matchParts rest next
  | .boundary :: rest =>
    if m.orthography.isWordBoundary (m.settle cursor) then
      m.matchParts rest (m.settle cursor)
    else none
  | .slot name :: rest => m.matchSlot name (m.settle cursor) fun next => m.matchParts rest next
  | .group optional alternatives :: rest =>
    match m.matchAny alternatives rest (m.settle cursor) with
    | some found => some found
    | none => if optional then m.matchParts rest (m.settle cursor) else none
termination_by sizeOf parts
decreasing_by all_goals simp; try omega

/-- Match one of several alternatives, each followed by the same rest. -/
def matchAny (m : Matcher) (alternatives : List (List Part)) (rest : List Part)
    (cursor : Cursor) : Option Match :=
  match alternatives with
  | [] => none
  | alternative :: others =>
    match m.matchParts (alternative ++ rest) cursor with
    | some found => some found
    | none => m.matchAny others rest cursor
termination_by sizeOf alternatives + sizeOf rest
decreasing_by
  · have := sizeOf_append_parts alternative rest
    rw [List.cons.sizeOf_spec]
    omega
  · rw [List.cons.sizeOf_spec]
    omega

end

def matchText (m : Matcher) (parts : List Part) (text : List Char) : Option Match :=
  m.matchParts parts (.atStart text)

end Matcher

end Phrasebook
