import Phrasebook.Data.Toml
import Phrasebook.Data.Yaml.Untyped
import Phrasebook.Definition

/-! Definitions in structured data and in YAML and TOML texts. -/

set_option autoImplicit false

namespace Phrasebook

open Data

def IntentDefinition.ofValue? (dialect : Value.Dialect) (value : Value) :
    Option IntentDefinition := do
  let fields ← dialect.fields? ["id", "phrases"] value
  let texts (value : Value) : Option (List String) := do
    (← dialect.items? value).mapM dialect.text?
  return {
    id := ← Value.required fields "id" dialect.text?
    phrases := ← Value.withDefault fields "phrases" [] texts }

def EntityDefinition.ofValue? (dialect : Value.Dialect) (value : Value) :
    Option EntityDefinition := do
  let fields ← dialect.fields? ["name", "kind", "mode", "phrases"] value
  let texts (value : Value) : Option (List String) := do
    (← dialect.items? value).mapM dialect.text?
  let kind (value : Value) : Option EntityType := do
    EntityType.ofName? (← dialect.name? (EntityType.all.map EntityType.name) value)
  let mode (value : Value) : Option MatchMode := do
    MatchMode.ofName? (← dialect.name? (MatchMode.all.map MatchMode.name) value)
  return {
    name := ← Value.required fields "name" dialect.text?
    kind := ← Value.withDefault fields "kind" .list kind
    mode := ← Value.withDefault fields "mode" .basic mode
    phrases := ← Value.withDefault fields "phrases" [] texts }

namespace Definition

def ofValue? (dialect : Value.Dialect) (value : Value) : Option Definition := do
  let fields ← dialect.fields? ["language", "intents", "entities"] value
  let intents (value : Value) : Option (List IntentDefinition) := do
    (← dialect.items? value).mapM (IntentDefinition.ofValue? dialect)
  let entities (value : Value) : Option (List EntityDefinition) := do
    (← dialect.items? value).mapM (EntityDefinition.ofValue? dialect)
  return {
    language := ← Value.withDefault fields "language" defaultLanguage dialect.text?
    intents := ← Value.withDefault fields "intents" [] intents
    entities := ← Value.withDefault fields "entities" [] entities }

inductive Format where
  | yaml
  | toml
  deriving Repr, DecidableEq

def ofText? (format : Format) (text : List Char) : Option Definition :=
  match format with
  | .yaml => (Yaml.untyped? text).bind (ofValue? .untyped)
  | .toml => (Toml.parse? text).bind (ofValue? .tabular)

def read (format : Format) (text : List Char) : Except ConfigError Definition :=
  match ofText? format text with
  | none => .error .unreadable
  | some definition => definition.validate.map fun _ => definition

end Definition

end Phrasebook
