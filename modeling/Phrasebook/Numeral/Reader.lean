import Phrasebook.Numeral.Group
import Phrasebook.Numeral.Lexeme
import Phrasebook.Numeral.Lexicon
import Phrasebook.Numeral.Positional
import Phrasebook.Numeral.Western

/-! Reading the numbers of a text.

A scheme is the way of one language to find number words and to put them
together; a reader follows a scheme with the words of some lexicon.
-/

set_option autoImplicit false

namespace Phrasebook.Numeral

open Text

inductive Scheme where
  | english
  | spanish
  | french
  | japanese
  | chinese
  deriving Repr, DecidableEq

namespace Scheme

def language : Scheme → Language
  | english => .english
  | spanish => .spanish
  | french => .french
  | japanese => .japanese
  | chinese => .chinese

def isSpanishGap (c : Char) : Bool := isBlank c || c == ',' || c == '-'

/-- The token of a word that stands on its own. -/
def wordToken? (vocabulary : Trie Char Token) (word : List Char) : Option Token :=
  if word.all Token.isDigit then Token.explicit? word else vocabulary.get? word

/-- Lowercase words with single spaces between them; hyphens and commas divide words. -/
def frenchText (text : List Char) : List Char :=
  let spaced := (lower text).map fun c => if c == '-' || c == ',' then ' ' else c
  [' '].intercalate (words isBlank spaced)

def tokenize (scheme : Scheme) (vocabulary : Trie Char Token) (text : List Char) :
    Option (List Token) :=
  match scheme with
  | english => Lexeme.tokens? (Lexeme.english vocabulary) (lower text)
  | spanish =>
    ((words isSpanishGap (lower text)).mapM (wordToken? vocabulary)).filter fun tokens =>
      !tokens.isEmpty
  | french => Lexeme.tokens? (Lexeme.french vocabulary) (frenchText text)
  | japanese => Lexeme.tokens? (Lexeme.japanese vocabulary) text
  | chinese => Lexeme.tokens? (Lexeme.chinese vocabulary) text

def grammar (capacity : Capacity) : Scheme → Grammar
  | english => Western.grammar capacity .beforeNumber
  | spanish => Western.grammar capacity .beforeUnit
  | french => Western.grammar capacity .beforeNumber
  | japanese => Positional.grammar capacity false
  | chinese => Positional.grammar capacity true

def order : Scheme → ReadingOrder
  | english | spanish | french => .rightToLeft
  | japanese | chinese => .leftToRight

def isTen (token : Token) : Bool := token.kind == .number && token.value == 10

/-- Whether a word for ten comes again within the next two tokens. -/
def repeatsTen : List Token → Bool
  | [] => false
  | token :: rest => isTen token && (rest.take 2).any isTen || repeatsTen rest

/-- Token sequences with more than one reading: "ten ten" may be twenty or 1010. -/
def isAmbiguous (scheme : Scheme) (tokens : List Token) : Bool :=
  match scheme with
  | english | spanish | french => repeatsTen tokens
  | japanese | chinese => false

/-- The numbers of a token sequence, side by side. -/
def evaluate (scheme : Scheme) (capacity : Capacity) (tokens : List Token) : Option (List Char) :=
  if scheme.isAmbiguous tokens then none
  else (scheme.grammar capacity).resolve scheme.order tokens

end Scheme

inductive Reader where
  /-- Reads no number at all. -/
  | silent
  | following (scheme : Scheme) (vocabulary : Trie Char Token)
  deriving Repr, Inhabited

namespace Reader

def ofLexicon (scheme : Scheme) (lexicon : Lexicon) : Reader := .following scheme lexicon.vocabulary

def language? : Reader → Option Language
  | silent => none
  | following scheme _ => some scheme.language

def tokenize (reader : Reader) (text : List Char) : Option (List Token) :=
  match reader with
  | silent => none
  | following scheme vocabulary => scheme.tokenize vocabulary text

def read? (reader : Reader) (text : List Char) : Option (List Char) :=
  match reader with
  | silent => none
  | following scheme vocabulary =>
    (scheme.tokenize vocabulary text).bind (scheme.evaluate .word64)

end Reader

end Phrasebook.Numeral
