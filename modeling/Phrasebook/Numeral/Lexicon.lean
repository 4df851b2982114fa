import Phrasebook.Language
import Phrasebook.Numeral.Token
import Phrasebook.Trie

/-! Number words of a language. -/

set_option autoImplicit false

namespace Phrasebook.Numeral

structure Entry where
  word : List Char
  token : Token
  deriving Repr, DecidableEq

namespace Entry

def number (word : String) (value : Nat) : Entry := ⟨word.toList, .number value⟩

def connector (word : String) : Entry := ⟨word.toList, .connector⟩

end Entry

structure Lexicon where
  language : Language
  entries : List Entry
  deriving Repr, DecidableEq

namespace Lexicon

def ofWords (language : Language) (numbers : List (String × Nat)) (connectors : List String) :
    Lexicon where
  language := language
  entries := numbers.map (fun word => .number word.1 word.2) ++ connectors.map .connector

def size (lexicon : Lexicon) : Nat := lexicon.entries.length

/-- The entry of a word, as it is written in the table. -/
def lookup? (lexicon : Lexicon) (word : List Char) : Option Entry :=
  lexicon.entries.find? fun entry => entry.word == word

/-- The words of the lexicon with their tokens, for reading a text. -/
def vocabulary (lexicon : Lexicon) : Trie Char Token :=
  Trie.ofList (lexicon.entries.map fun entry => (entry.word, entry.token))

end Lexicon

end Phrasebook.Numeral
