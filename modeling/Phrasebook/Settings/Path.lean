import Phrasebook.Data.Number
import Phrasebook.Text.Lowercase

/-! Paths into structured data, and the merging of values at a path.

A record is merged into a record entry by entry, and every other value takes the
place of the present one. Letter case does not matter in keys.
-/

set_option autoImplicit false

namespace Phrasebook.Settings

open Data Text

abbrev Entries := List (String × Value)

def setEntry (entries : Entries) (key : String) (value : Value) : Entries :=
  match entries with
  | [] => [(key, value)]
  | (name, present) :: rest =>
    if name = key then (key, value) :: rest else (name, present) :: setEntry rest key value

theorem lookup_setEntry (entries : Entries) (key query : String) (value : Value) :
    (setEntry entries key value).lookup query =
      if query = key then some value else entries.lookup query := by
  induction entries with
  | nil =>
    by_cases same : query = key
    · simp [setEntry, same]
    · simp [setEntry, List.lookup_cons, beq_eq_false_iff_ne.2 same, same]
  | cons entry rest ih =>
    obtain ⟨name, present⟩ := entry
    by_cases first : name = key
    · by_cases same : query = key
      · simp [setEntry, first, same]
      · simp [setEntry, List.lookup_cons, first, beq_eq_false_iff_ne.2 same, same]
    · by_cases here : query = name
      · have other : query ≠ key := fun same => first (here.symm.trans same)
        simp [setEntry, first, here]
      · simp [setEntry, List.lookup_cons, first, beq_eq_false_iff_ne.2 here, ih]

/-- The entries of a record; other values have none. -/
def entriesOf : Value → Entries
  | .record entries => entries
  | _ => []

/-- The items of a list; other values have none. -/
def itemsOf : Value → List Value
  | .list items => items
  | _ => []

/-- The value of a key, or no value. -/
def valueAt (entries : Entries) (key : String) : Value := (entries.lookup key).getD .null

def lowered (key : String) : String := String.ofList (lower key.toList)

mutual

/-- Give a key a value; a record is merged into the record that the key has. An
empty record changes no key. -/
def mergeValue (entries : Entries) (key : String) : Value → Entries
  | .record [] => if (entries.lookup key).isSome then entries else entries ++ [(key, .record [])]
  | .record inner =>
    setEntry entries key (.record (mergeEntries (entriesOf (valueAt entries key)) inner))
  | value => setEntry entries key value

def mergeEntries (entries : Entries) : Entries → Entries
  | [] => entries
  | (key, value) :: rest => mergeEntries (mergeValue entries (lowered key) value) rest

end

/-- A step into a record or a list. A negative position counts from the end. -/
inductive Step where
  | key (name : String)
  | position (index : Int)
  deriving Repr, DecidableEq

/-- A path from the root record on. -/
structure Path where
  first : String
  steps : List Step
  deriving Repr, DecidableEq

def isNameChar (c : Char) : Bool := c.isAlphanum || c == '_' || c == '-' || c == ' '

def isGap (c : Char) : Bool := c == ' ' || c == '\t'

/-- The number in brackets of which the first has been read, and the text after them. -/
def index? (text : List Char) : Option (Int × List Char) :=
  let inside := text.dropWhile isGap
  let (sign, digits) : List Char × List Char :=
    match inside with
    | '-' :: rest => (['-'], rest)
    | _ => ([], inside)
  match (digits.dropWhile isDigit).dropWhile isGap with
  | ']' :: rest => (int64? (sign ++ digits.takeWhile isDigit)).map fun index => (index, rest)
  | _ => none

/-- The steps that a text with dots and brackets gives. -/
def steps? : Nat → List Char → Option (List Step)
  | _, [] => some []
  | 0, _ :: _ => none
  | fuel + 1, mark :: rest =>
    if mark = '.' then
      let name := rest.takeWhile isNameChar
      if name.isEmpty then none
      else (steps? fuel (rest.dropWhile isNameChar)).map (.key (String.ofList name) :: ·)
    else if mark = '[' then do
      let (index, after) ← index? rest
      return .position index :: (← steps? fuel after)
    else none

/-- The path that a key gives; a key that gives none is the only step of its path. -/
def pathOf (key : String) : Path :=
  let name := key.toList.takeWhile isNameChar
  let rest := key.toList.dropWhile isNameChar
  match steps? rest.length rest with
  | some steps => if name.isEmpty then ⟨key, []⟩ else ⟨String.ofList name, steps⟩
  | none => ⟨key, []⟩

/-- Put a value at a place in a list, which grows by empty places up to it. -/
def setItem (items : List Value) (place : Nat) (value : Value) : List Value :=
  (items ++ List.replicate (place + 1 - items.length) Value.null).set place value

/-- Put a value at the end of some steps. What is in the way of a step is replaced. -/
def putAt (value : Value) : List Step → Value → Value
  | [], _ => value
  | [.key name], present => .record (mergeValue (entriesOf present) (lowered name) value)
  | .key name :: rest, present =>
    let entries := entriesOf present
    let key := lowered name
    .record (setEntry entries key (putAt value rest (valueAt entries key)))
  | .position index :: rest, present =>
    let items := itemsOf present
    let place := if index < 0 then items.length - index.natAbs else index.toNat
    .list (setItem items place (putAt value rest (items.getD place .null)))

def putEntry (entries : Entries) (path : Path) (value : Value) : Entries :=
  entriesOf (putAt value (.key path.first :: path.steps) (.record entries))

def addLayer (entries layer : Entries) : Entries :=
  layer.foldl (fun merged entry => putEntry merged (pathOf entry.1) entry.2) entries

end Phrasebook.Settings
