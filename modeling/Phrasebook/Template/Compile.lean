import Phrasebook.Orthography
import Phrasebook.Template.Error
import Phrasebook.Template.Pattern

/-! Compiling phrase templates.

Literal text is lowered and loses its punctuation; whitespace becomes a space
between words, or nothing in a language without word spacing. Slots are written
in braces, optional groups in brackets and required groups in parentheses, with
bars between their alternatives. A template is read from left to right, and the
first fault decides.
-/

set_option autoImplicit false

namespace Phrasebook

open Text

namespace Template

/-- A group whose closing bracket has not been read. -/
structure OpenGroup where
  optional : Bool
  position : Nat
  /-- The parts before the group, last first. -/
  before : List Part
  /-- The finished alternatives, last first. -/
  finished : List (List Part)
  deriving Repr

/-- What has been read so far. -/
structure Progress where
  groups : List OpenGroup := []
  /-- The parts of the innermost open sequence, last first. -/
  current : List Part := []
  /-- Whitespace was read after the last part. -/
  pendingSpace : Bool := false
  /-- Anything has been written, brackets included. -/
  started : Bool := false
  /-- A slot or a character other than punctuation has been read. -/
  hasContent : Bool := false
  /-- Position and name, last character first, of the slot that is being read. -/
  slot : Option (Nat × List Char) := none
  deriving Repr

namespace Progress

def add (progress : Progress) (part : Part) : Progress :=
  { progress with current := part :: progress.current, started := true }

def content (progress : Progress) (parts : List Part) : Progress :=
  { progress with
    current := parts.reverse ++ progress.current, started := true, hasContent := true }

def settleSpace (o : Orthography) (progress : Progress) : Progress :=
  let settled := { progress with pendingSpace := false }
  if progress.pendingSpace && o.hasWordSpacing && progress.started then settled.add .space
  else settled

def openGroup (progress : Progress) (optional : Bool) (position : Nat) : Progress :=
  { progress with
    groups := ⟨optional, position, progress.current, []⟩ :: progress.groups
    current := []
    started := true }

/-- Close the innermost group, which must have the same kind of brackets. -/
def closeGroup? (progress : Progress) (optional : Bool) : Option Progress :=
  match progress.groups with
  | [] => none
  | top :: outer =>
    if top.optional = optional then
      let alternatives := (progress.current.reverse :: top.finished).reverse
      some { progress with
        groups := outer
        current := .group optional alternatives :: top.before }
    else none

/-- Start the next alternative of the innermost group. -/
def nextAlternative? (progress : Progress) : Option Progress :=
  match progress.groups with
  | [] => none
  | top :: outer =>
    some { progress with
      groups := { top with finished := progress.current.reverse :: top.finished } :: outer
      current := [] }

end Progress

/-- Whether the next character that is no blank opens a slot. -/
def slotFollows (rest : List Char) : Bool := rest.find? (fun c => !isBlank c) == some '{'

/-- Read one character inside a slot that starts at `start`. -/
def readInSlot (progress : Progress) (start : Nat) (name : List Char) (position : Nat) (c : Char) :
    Except (TemplateFault × Nat) Progress :=
  if c = '}' then
    let trimmed := trim name.reverse
    if trimmed = [] then .error (.emptySlotName, start)
    else .ok ({ progress with slot := none }.content [.slot trimmed])
  else if c = '{' then .error (.nestedSlot, position)
  else if ['[', ']', '(', ')', '|'].contains c then .error (.unclosedSlot, start)
  else .ok { progress with slot := some (start, c :: name) }

def readCloser (progress : Progress) (optional : Bool) (position : Nat) (rest : List Char) :
    Except (TemplateFault × Nat) Progress :=
  match progress.closeGroup? optional with
  | none => .error (.unexpectedCloser (Part.closer optional), position)
  | some closed =>
    -- An optional word must not run into the slot after it.
    .ok (if optional && slotFollows rest then closed.add .boundary else closed)

/-- Read one character outside of slots, with the characters that follow it. -/
def readOutside (o : Orthography) (progress : Progress) (position : Nat) (c : Char)
    (rest : List Char) : Except (TemplateFault × Nat) Progress :=
  if o.isSpace c then .ok { progress with pendingSpace := true }
  else
    let progress := progress.settleSpace o
    match c with
    | '{' => .ok { progress with slot := some (position, []) }
    | '}' => .error (.unexpectedCloser c, position)
    | '[' => .ok (progress.openGroup true position)
    | '(' => .ok (progress.openGroup false position)
    | ']' => readCloser progress true position rest
    | ')' => readCloser progress false position rest
    | '|' =>
      match progress.nextAlternative? with
      | none => .error (.alternativeOutsideGroup, position)
      | some next => .ok next
    | _ =>
      if o.isPatternPunctuation c then .ok progress
      else .ok (progress.content ((lowerChar c).map Part.ofChar))

/-- Read the rest of a template, from a position on. -/
def read (o : Orthography) (progress : Progress) (position : Nat) :
    List Char → Except (TemplateFault × Nat) Progress
  | [] => .ok progress
  | c :: rest => do
    let next ←
      match progress.slot with
      | some (start, name) => readInSlot progress start name position c
      | none => readOutside o progress position c rest
    read o next (position + c.utf8Size) rest

/-- What a template that has been read to its end lacks. -/
def missing? (progress : Progress) : Option (TemplateFault × Nat) :=
  match progress.slot, progress.groups with
  | some (start, _), _ => some (.unclosedSlot, start)
  | none, top :: _ => some (.unclosedGroup (Part.opener top.optional), top.position)
  | none, [] => none

def compile (o : Orthography) (phrase : String) : Except TemplateError Pattern :=
  let source := trim phrase.toList
  let refuse (fault : TemplateFault × Nat) : Except TemplateError Pattern :=
    .error (.fault fault.1 (String.ofList source) fault.2)
  match read o {} 0 source with
  | .error fault => refuse fault
  | .ok progress =>
    match missing? progress with
    | some fault => refuse fault
    | none =>
      if progress.hasContent then .ok ⟨phrase, progress.current.reverse⟩
      else .error .emptyPhrase

end Template

end Phrasebook
