import Phrasebook.Data.Yaml.Node

/-! Values of nodes whose types are decided by how they are written. -/

set_option autoImplicit false

namespace Phrasebook.Data.Yaml

def basedInt64? (base : Nat) (isDigitOf : Char → Bool) (text : List Char) : Option Int :=
  let (negative, digits) := splitSign text
  let value := withSign negative (digitsValue base digits)
  if !digits.isEmpty && digits.all isDigitOf && fitsInt64 value then some value else none

/-- A whole number: its base may come first, or one more plus sign. -/
def wholeNumber? (text : List Char) : Option Int :=
  let marked : Option Int :=
    match text with
    | '0' :: 'x' :: digits => basedInt64? 16 isHexDigit digits
    | '0' :: 'o' :: digits => basedInt64? 8 (fun c => '0' ≤ c && c ≤ '7') digits
    | '+' :: number => int64? number
    | _ => none
  marked.or (int64? text)

/-- Names of an infinity and of no number that no value stands for. -/
def unboundedNames : List String :=
  [".inf", ".Inf", ".INF", "+.inf", "+.Inf", "+.INF", "-.inf", "-.Inf", "-.INF", ".nan", ".NAN"]

/-- A real number, unless its name has no value. -/
def realNumber? (text : List Char) : Option Value :=
  if unboundedNames.contains (String.ofList text) then none else (binary64? text).map .real

/-- Whether a scalar names a real number. -/
def isReal (text : List Char) : Bool :=
  unboundedNames.contains (String.ofList text) || (binary64? text).isSome

def plainValue? (text : List Char) : Option Value :=
  match String.ofList text with
  | "~" | "null" => some .null
  | "true" => some (.bool true)
  | "false" => some (.bool false)
  | word =>
    match wholeNumber? text with
    | some value => some (.int value)
    | none => if isReal text then realNumber? text else some (.text word)

/-- A node that is read: a value, or none where a scalar does not fit its tag. -/
abbrev Typed := Option Value

/-- The value that a plain scalar writes with a tag of the core types. -/
def coreValue? (type : String) (text : List Char) : Option Typed :=
  let word := String.ofList text
  match type with
  | "bool" =>
    if word = "true" then some (some (.bool true))
    else if word = "false" then some (some (.bool false))
    else some none
  | "int" => some ((int64? text).map .int)
  | "float" => if isReal text then (realNumber? text).map some else some none
  | "null" => some (if word = "~" || word = "null" then some .null else none)
  | _ => some (some (.text word))

def typedScalar? (tag : Option Tag) (isPlain : Bool) (text : List Char) : Option Typed :=
  if !isPlain then some (some (.text (String.ofList text)))
  else
    match tag with
    | none => (plainValue? text).map some
    | some tag =>
      if String.ofList tag.handle = "tag:yaml.org,2002:" then
        coreValue? (String.ofList tag.suffix) text
      else some (some (.text (String.ofList text)))

/-- Keys and values in turn. What has no value is passed over as a key, and is
null as a value. -/
def pairUp : List Typed → List (Value × Value)
  | none :: rest => pairUp rest
  | some key :: value :: rest => (key, value.getD .null) :: pairUp rest
  | [some _] | [] => []

/-- A key that is a text or a whole number, and whether it is a number. -/
def keyText? : Value → Option (Bool × String)
  | .text name => some (false, name)
  | .int number => some (true, toString number)
  | _ => none

/-- The entries of a record. No key comes twice; of a text and a number that are
written alike the later one counts. -/
def typedRecord? (typed : List Typed) : Option Value := do
  let entries ← (pairUp typed).mapM fun entry => do return (← keyText? entry.1, entry.2)
  if (entries.map (·.1)).Nodup then
    return .record (keepLast (entries.map fun entry => (entry.1.2, entry.2)))
  else none

mutual

def Node.typed? : Node → Option Typed
  | .scalar tag isPlain text => typedScalar? tag isPlain text
  | .list items => do return some (.list ((← typedItems? items).map (·.getD .null)))
  | .record entries => do return some (← typedRecord? (← typedEntries? entries))
  | .reference _ => some none

def typedItems? : List Node → Option (List Typed)
  | [] => some []
  | item :: rest => do return (← item.typed?) :: (← typedItems? rest)

def typedEntries? : List (Node × Node) → Option (List Typed)
  | [] => some []
  | (key, value) :: rest => do
    return (← key.typed?) :: (← value.typed?) :: (← typedEntries? rest)

end

def typed? (source : List Char) : Option Value := do
  match ← documents? .second source with
  | [] => return .record []
  | [document] => return (← document.root.typed?).getD .null
  | _ => none

end Phrasebook.Data.Yaml
