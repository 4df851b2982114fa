/-! Compiled phrase templates.

A pattern is a sequence of parts that a text is matched against from left to
right. Its written form shows each part by one character, a slot by its name
in braces and a group by its alternatives in brackets.
-/

set_option autoImplicit false

namespace Phrasebook

/-- One part of a pattern. -/
inductive Part where
  /-- A character that the text has to contain. -/
  | letter (c : Char)
  /-- Space between two words. -/
  | space
  /-- A place where a word can start or end. -/
  | boundary
  /-- A named piece of the text. -/
  | slot (name : List Char)
  | group (optional : Bool) (alternatives : List (List Part))
  deriving Repr, Inhabited

namespace Part

/-- How a word boundary is written. -/
def boundaryMark : Char := '\u001E'

def opener (optional : Bool) : Char := if optional then '[' else '('

def closer (optional : Bool) : Char := if optional then ']' else ')'

mutual

def write : Part → List Char
  | letter c => [c]
  | space => [' ']
  | boundary => [boundaryMark]
  | slot name => '{' :: name ++ ['}']
  | group optional alternatives =>
    opener optional :: writeAlternatives alternatives ++ [closer optional]

def writeAll : List Part → List Char
  | [] => []
  | part :: rest => part.write ++ writeAll rest

def writeAlternatives : List (List Part) → List Char
  | [] => []
  | alternative :: rest =>
    match rest with
    | [] => writeAll alternative
    | _ :: _ => writeAll alternative ++ '|' :: writeAlternatives rest

end

mutual

def slotNames : Part → List (List Char)
  | slot name => [name]
  | group _ alternatives => slotNamesOfAlternatives alternatives
  | letter _ | space | boundary => []

/-- The names of the slots of a sequence, from left to right. -/
def slotNamesOfAll : List Part → List (List Char)
  | [] => []
  | part :: rest => part.slotNames ++ slotNamesOfAll rest

def slotNamesOfAlternatives : List (List Part) → List (List Char)
  | [] => []
  | alternative :: rest => slotNamesOfAll alternative ++ slotNamesOfAlternatives rest

end

theorem writeAll_append (first second : List Part) :
    writeAll (first ++ second) = writeAll first ++ writeAll second := by
  induction first with
  | nil => simp [writeAll]
  | cons part rest ih => simp [writeAll, ih]

/-- A character of a pattern; the mark of a word boundary stands for one. -/
def ofChar (c : Char) : Part := if c = boundaryMark then boundary else letter c

@[simp] theorem write_ofChar (c : Char) : (ofChar c).write = [c] := by
  unfold ofChar
  split <;> simp_all [write]

end Part

structure Pattern where
  phrase : String
  parts : List Part
  deriving Repr

namespace Pattern

def normalized (pattern : Pattern) : List Char := Part.writeAll pattern.parts

/-- The names of the slots, each once, in the order in which they first appear. -/
def slotNames (pattern : Pattern) : List (List Char) :=
  (Part.slotNamesOfAll pattern.parts).foldl
    (fun names name => if names.contains name then names else names ++ [name]) []

end Pattern

end Phrasebook
