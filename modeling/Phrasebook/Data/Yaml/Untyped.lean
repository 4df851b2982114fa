import Phrasebook.Data.Yaml.Node

/-! Values of nodes whose types are decided by what is asked for. -/

set_option autoImplicit false

namespace Phrasebook.Data.Yaml

/-- Words of a plain scalar that stand for no value. -/
def nullWords : List String := ["", "~", "null", "Null", "NULL"]

/-- The name that a local tag gives. -/
def Tag.name? (tag : Tag) : Option String :=
  match tag.handle ++ tag.suffix with
  | '!' :: c :: name => some (String.ofList (c :: name))
  | _ => none

/-- The value of a scalar with no value for an empty plain one. -/
def untypedScalar (tag : Option Tag) (isPlain : Bool) (text : List Char) : Value :=
  let word := String.ofList text
  let value : Value := if isPlain && text.isEmpty then .null else .text word
  match tag.bind Tag.name? with
  | some name => .tagged name (isPlain && nullWords.contains word) value
  | none => value

def keyName? (key : Value) : Option String :=
  match key.untagged with
  | .null => some ""
  | bare => bare.plainText?

mutual

/-- The value of a node, with texts for all scalars, where references have some
values. A record with a key that is no text reads as a truth value, which nothing
asks for. -/
def Node.untyped (meaning : Nat → Value) : Node → Value
  | .scalar tag isPlain text => untypedScalar tag isPlain text
  | .list items => .list (untypedItems meaning items)
  | .record entries =>
    match untypedEntries meaning entries with
    | some untyped => .record untyped
    | none => .bool false
  | .reference number => meaning number

def untypedItems (meaning : Nat → Value) : List Node → List Value
  | [] => []
  | item :: rest => item.untyped meaning :: untypedItems meaning rest

def untypedEntries (meaning : Nat → Value) : List (Node × Node) → Option (List (String × Value))
  | [] => some []
  | (key, value) :: rest =>
    match keyName? (key.untyped meaning), untypedEntries meaning rest with
    | some name, some others => some ((name, value.untyped meaning) :: others)
    | _, _ => none

end

/-- The value of a reference that is followed no further, which nothing asks for. -/
def unfollowed (_ : Nat) : Value := .bool false

/-- The values of numbered nodes, with references followed to some depth. -/
def Document.values (document : Document) : Nat → List (Nat × Value)
  | 0 => []
  | depth + 1 =>
    let inner := document.values depth
    document.numbered.map fun entry =>
      (entry.1, entry.2.untyped fun number => (inner.lookup number).getD (unfollowed number))

/-- How many references inside of each other are followed. What is asked for is
less deep. -/
def referenceDepth : Nat := 8

def Document.untyped (document : Document) : Value :=
  let values := document.values referenceDepth
  document.root.untyped fun number => (values.lookup number).getD (unfollowed number)

/-- The value of the only document of a text. A text without a document has no value. -/
def untyped? (source : List Char) : Option Value := do
  match ← documents? .first source with
  | [] => return .null
  | [document] => return document.untyped
  | _ => none

end Phrasebook.Data.Yaml
