import Phrasebook.Numeral.Lexicon.Chinese
import Phrasebook.Numeral.Lexicon.English
import Phrasebook.Numeral.Lexicon.French
import Phrasebook.Numeral.Lexicon.Japanese
import Phrasebook.Numeral.Lexicon.Spanish
import Phrasebook.Numeral.Reader

/-! The number readers at hand, one for each language at most. -/

set_option autoImplicit false

namespace Phrasebook.Numeral

namespace Scheme

def ofLanguage? : Language → Option Scheme
  | .english => some english
  | .spanish => some spanish
  | .french => some french
  | .japanese => some japanese
  | .chinese => some chinese
  | .german | .italian | .portuguese => none

/-- The number words of the language itself. -/
def lexicon : Scheme → Lexicon
  | english => .english
  | spanish => .spanish
  | french => .french
  | japanese => .japanese
  | chinese => .chinese

def reader (scheme : Scheme) : Reader := .ofLexicon scheme scheme.lexicon

theorem language_lexicon (scheme : Scheme) : scheme.lexicon.language = scheme.language := by
  cases scheme <;> rfl

theorem ofLanguage?_language (scheme : Scheme) : ofLanguage? scheme.language = some scheme := by
  cases scheme <;> rfl

end Scheme

def Lexicon.ofLanguage? (language : Language) : Option Lexicon :=
  (Scheme.ofLanguage? language).map Scheme.lexicon

structure Registry where
  reader? : Language → Option Reader

namespace Registry

def empty : Registry := ⟨fun _ => none⟩

def register (registry : Registry) (language : Language) (reader : Reader) : Registry :=
  ⟨fun other => if other = language then some reader else registry.reader? other⟩

/-- Every language with number words of its own. -/
def standard : Registry := ⟨fun language => (Scheme.ofLanguage? language).map Scheme.reader⟩

/-- The reader of a language, or one that reads nothing. -/
def readerOrSilent (registry : Registry) (language : Language) : Reader :=
  (registry.reader? language).getD .silent

def languages (registry : Registry) : List Language :=
  Language.all.filter fun language => (registry.reader? language).isSome

theorem reader?_register (registry : Registry) (language other : Language) (reader : Reader) :
    (registry.register language reader).reader? other =
      if other = language then some reader else registry.reader? other := rfl

theorem mem_languages {registry : Registry} {language : Language} :
    language ∈ registry.languages ↔ (registry.reader? language).isSome := by
  simp [languages, Language.mem_all]

end Registry

end Phrasebook.Numeral
