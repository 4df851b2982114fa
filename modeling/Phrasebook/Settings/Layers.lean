import Phrasebook.Settings.File
import Phrasebook.Settings.Format

/-! Settings from files and environment variables.

The layers are the default file, the file of the environment and the
variables; later ones take precedence.
-/

set_option autoImplicit false

namespace Phrasebook.Settings

open Data Text

def variablePrefix : List Char := "pattern_intent__".toList

/-- Replace each pair of underscores by a dot. -/
def dotted : List Char → List Char
  | '_' :: '_' :: rest => '.' :: dotted rest
  | c :: rest => c :: dotted rest
  | [] => []

/-- The key that a variable sets, if it sets one. -/
def variableKey? (name : String) : Option String :=
  let key := lower name.toList
  if variablePrefix.isPrefixOf key then
    some (String.ofList (dotted (key.drop variablePrefix.length)))
  else none

/-- The value of a variable: a truth value, a number, or a text. -/
def variableValue (text : String) : Value :=
  match String.ofList (lower text.toList) with
  | "true" => .bool true
  | "false" => .bool false
  | _ =>
    match int64? text.toList, binary64? text.toList with
    | some value, _ => .int value
    | none, some value => .real value
    | none, none => .text text

def variableLayer (bindings : List (String × String)) : Entries :=
  bindings.filterMap fun binding =>
    (variableKey? binding.1).map fun key => (key, variableValue binding.2)

/-- A text that stands for a truth value. -/
def switch? (text : String) : Option Bool :=
  let word := lowered text
  if ["1", "true", "on", "yes"].contains word then some true
  else if ["0", "false", "off", "no"].contains word then some false
  else none

/-- Texts, truth values and numbers stand for each other, letter case does not
matter in names, and a list may give the fields of a record. -/
def lenient : Value.Dialect where
  text? value :=
    match value with
    | .text value => some value
    | .date value => some value
    | .bool value => some (if value then "true" else "false")
    | .int value => some (toString value)
    | .real value => some (String.ofList value.write)
    | _ => none
  bool? value :=
    match value with
    | .bool value => some value
    | .int value => some (value != 0)
    | .real value => some !value.isZero
    | .text value => switch? value
    | .date value => switch? value
    | _ => none
  name? names value :=
    match value with
    | .text name => Value.knownName? names (lowered name)
    | .record [(name, _)] => Value.knownName? names (lowered name)
    | _ => none
  nullIsEmpty := false
  allowsPositions := true
  allowsExtraItems := true

def layers? (tree : FileTree) (environment : Option String)
    (bindings : List (String × String)) : Option Entries := do
  let base ← fileLayer? tree "config/default"
  let special ← match environment with
    | some name => fileLayer? tree ("config/" ++ name)
    | none => some []
  return [base, special, variableLayer bindings].foldl addLayer []

def load (tree : FileTree) (environment : Option String) (bindings : List (String × String)) :
    Except ConfigError Settings :=
  match (layers? tree environment bindings).bind fun entries =>
      ofValue? lenient (.record entries) with
  | none => .error .unreadable
  | some settings => settings.validate.map fun _ => settings

end Phrasebook.Settings
