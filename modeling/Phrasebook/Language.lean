import Phrasebook.Text.Blank
import Phrasebook.Text.Lowercase

/-! Languages whose phrases can be matched, and the tags that name them. -/

set_option autoImplicit false

namespace Phrasebook

open Text

inductive Script where
  | latin
  | japanese
  | han
  deriving Repr, DecidableEq

/-- Whether running text separates its words by spaces. -/
def Script.hasWordSpacing : Script → Bool
  | .latin => true
  | .japanese | .han => false

def Script.name : Script → String
  | .latin => "Latin"
  | .japanese => "Japanese"
  | .han => "Han"

inductive Language where
  | english
  | german
  | spanish
  | french
  | italian
  | portuguese
  | japanese
  | chinese
  deriving Repr, DecidableEq, Inhabited

namespace Language

def all : List Language :=
  [english, german, spanish, french, italian, portuguese, japanese, chinese]

theorem mem_all (language : Language) : language ∈ all := by
  cases language <;> decide

def code : Language → String
  | english => "en"
  | german => "de"
  | spanish => "es"
  | french => "fr"
  | italian => "it"
  | portuguese => "pt"
  | japanese => "ja"
  | chinese => "zh"

def name : Language → String
  | english => "English"
  | german => "German"
  | spanish => "Spanish"
  | french => "French"
  | italian => "Italian"
  | portuguese => "Portuguese"
  | japanese => "Japanese"
  | chinese => "Chinese"

def script : Language → Script
  | japanese => .japanese
  | chinese => .han
  | english | german | spanish | french | italian | portuguese => .latin

def spellings : Language → List String
  | english => ["en", "eng", "english"]
  | german => ["de", "deu", "ger", "german"]
  | spanish => ["es", "spa", "spanish"]
  | french => ["fr", "fra", "fre", "french"]
  | italian => ["it", "ita", "italian"]
  | portuguese => ["pt", "por", "portuguese"]
  | japanese => ["ja", "jpn", "japanese"]
  | chinese => ["zh", "zho", "chi", "chinese"]

/-- The language with a spelling, whatever its letter case and surrounding blanks. -/
def ofSpelling? (text : List Char) : Option Language :=
  let spelling := String.ofList (lower (trim text))
  all.find? fun language => language.spellings.contains spelling

/-- The language of a tag such as `en-US` or `zh_Hans`: its first subtag decides. -/
def ofTag? (tag : List Char) : Option Language :=
  ofSpelling? ((trim tag).takeWhile fun c => c != '-' && c != '_')

end Language

end Phrasebook
