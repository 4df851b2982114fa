import Phrasebook.Data.Value
import Phrasebook.Settings

/-! Settings in structured data. -/

set_option autoImplicit false

namespace Phrasebook

open Data

def MatcherSettings.ofValue? (dialect : Value.Dialect) (value : Value) :
    Option MatcherSettings := do
  let fields ← dialect.fields?
    ["default_language", "normalize_french_spacing", "strip_sentence_end", "definition_path"] value
  let path (value : Value) : Option (Option String) :=
    match value with
    | .null => some none
    | _ => (dialect.text? value).map some
  return {
    defaultLanguage := ← Value.withDefault fields "default_language" Phrasebook.defaultLanguage
      dialect.text?
    normalizeFrenchSpacing :=
      ← Value.withDefault fields "normalize_french_spacing" true dialect.bool?
    stripSentenceEnd := ← Value.withDefault fields "strip_sentence_end" true dialect.bool?
    definitionPath := ← Value.withDefault fields "definition_path" none path }

def LogSettings.ofValue? (dialect : Value.Dialect) (value : Value) : Option LogSettings := do
  let fields ← dialect.fields? ["log_level", "log_json"] value
  return {
    level := ← Value.withDefault fields "log_level" "info" dialect.text?
    json := ← Value.withDefault fields "log_json" false dialect.bool? }

/-- The settings that structured data describes, with defaults for what is left out. -/
def Settings.ofValue? (dialect : Value.Dialect) (value : Value) : Option Settings := do
  let fields ← dialect.fields? ["environment", "matcher", "observability"] value
  let environment (value : Value) : Option Environment := do
    Environment.ofName? (← dialect.name? (Environment.all.map Environment.name) value)
  return {
    environment := ← Value.withDefault fields "environment" .development environment
    matcher := ← Value.withDefault fields "matcher" {} (MatcherSettings.ofValue? dialect)
    log := ← Value.withDefault fields "observability" {} (LogSettings.ofValue? dialect) }

end Phrasebook
