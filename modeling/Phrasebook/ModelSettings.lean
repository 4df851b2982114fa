import Phrasebook.Definition.File
import Phrasebook.Model
import Phrasebook.Settings

/-! Models built from settings. -/

set_option autoImplicit false

namespace Phrasebook.Model

open Text Numeral

/-- Build a model from the definition that settings name, or an empty model of
their default language. The default language also stands in for a definition
without one. -/
def ofSettings (settings : MatcherSettings) (tree : FileTree) (numbers : Registry) :
    Except ModelError Model := do
  let model ←
    match settings.definitionPath with
    | none => pure (new settings.defaultLanguage numbers)
    | some path => do
      let definition ← (Definition.load tree path).mapError .definition
      let language :=
        if isBlankText definition.language.toList then settings.defaultLanguage
        else definition.language
      ofDefinition { definition with language := language } numbers
  return model.withOptions settings.options

end Phrasebook.Model
