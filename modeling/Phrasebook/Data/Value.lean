import Phrasebook.Data.Binary64

/-! Structured data, as files and variables hold it. -/

set_option autoImplicit false

namespace Phrasebook.Data

inductive Value where
  | null
  | bool (value : Bool)
  | int (value : Int)
  | real (value : Binary64)
  | text (value : String)
  /-- A day, a time or both, as they are written. -/
  | date (text : String)
  | list (items : List Value)
  /-- Entries in the order of the source; a key may come more than once. -/
  | record (entries : List (String × Value))
  /-- A value with a name; it is bare if the value is none or a word for none. -/
  | tagged (tag : String) (isBare : Bool) (value : Value)
  deriving Repr, Inhabited

/-- Entries of a record, in which a later entry replaces earlier ones of its key. -/
def keepLast : List (String × Value) → List (String × Value)
  | [] => []
  | entry :: rest =>
    if rest.any (·.1 == entry.1) then keepLast rest else entry :: keepLast rest

namespace Value

/-- A value without its tags. -/
def untagged : Value → Value
  | .tagged _ _ value => value.untagged
  | value => value

/-- How values of a source stand for those that are asked for. -/
structure Dialect where
  text? : Value → Option String
  bool? : Value → Option Bool
  /-- A name out of a fixed set of names. -/
  name? : List String → Value → Option String
  /-- No value at all reads as an empty list or record. -/
  nullIsEmpty : Bool
  /-- A list gives the fields of a record by position. -/
  allowsPositions : Bool
  /-- Such a list may be longer than the record. -/
  allowsExtraItems : Bool

namespace Dialect

def items? (dialect : Dialect) (value : Value) : Option (List Value) :=
  match value.untagged with
  | .list items => some items
  | .null => if dialect.nullIsEmpty then some [] else none
  | _ => none

/-- The fields of a record, each at most once; fields of other names do not
matter. -/
def fields? (dialect : Dialect) (names : List String) (value : Value) :
    Option (List (String × Value)) :=
  match value.untagged with
  | .record entries =>
    let known := entries.filter fun entry => names.contains entry.1
    if (known.map (·.1)).Nodup then some known else none
  | .list items =>
    if dialect.allowsPositions && (dialect.allowsExtraItems || items.length ≤ names.length) then
      some (names.zip items)
    else none
  | .null => if dialect.nullIsEmpty then some [] else none
  | _ => none

end Dialect

def required {α : Type} (fields : List (String × Value)) (name : String)
    (read : Value → Option α) : Option α :=
  (fields.lookup name).bind read

/-- The value of a field, or a default if the field is missing. -/
def withDefault {α : Type} (fields : List (String × Value)) (name : String) (default : α)
    (read : Value → Option α) : Option α :=
  match fields.lookup name with
  | none => some default
  | some value => read value

def plainText? : Value → Option String
  | .text value => some value
  | _ => none

def plainBool? : Value → Option Bool
  | .bool value => some value
  | _ => none

def knownName? (names : List String) (name : String) : Option String :=
  if names.contains name then some name else none

namespace Dialect

/-- Every value stands for itself only. -/
def strict : Dialect where
  text? := plainText?
  bool? := plainBool?
  name? names value := (plainText? value).bind (knownName? names)
  nullIsEmpty := false
  allowsPositions := true
  allowsExtraItems := false

/-- Strict, but a name may also be the only key of a record without a value. -/
def keyed : Dialect :=
  { strict with
    name? := fun names value =>
      match value with
      | .record [(name, .null)] => knownName? names name
      | _ => strict.name? names value }

/-- Strict, but a name may also be the only key of a record with an empty value,
and a list may give more than the fields of a record. -/
def tabular : Dialect :=
  { strict with
    name? := fun names value =>
      match value with
      | .record [(name, .record [])] => knownName? names name
      | .record [(name, .list [])] => knownName? names name
      | _ => strict.name? names value
    allowsExtraItems := true }

/-- Strict, but no value reads as an empty text, list or record, fields have
names, and a name may also be the tag of a bare value. -/
def untyped : Dialect where
  text? value :=
    match value.untagged with
    | .null => some ""
    | bare => plainText? bare
  bool? value := plainBool? value.untagged
  name? names value :=
    match value with
    | .tagged name isBare _ => if isBare then knownName? names name else none
    | _ => (plainText? value).bind (knownName? names)
  nullIsEmpty := true
  allowsPositions := false
  allowsExtraItems := false

end Dialect

end Value

end Phrasebook.Data
