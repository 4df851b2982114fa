import Phrasebook.Numeral.Token
import Phrasebook.Text.Blank
import Phrasebook.Text.WordChar
import Phrasebook.Trie

/-! Finding the number tokens of a text, from left to right.

A scanner says what a text has at its front: a token of some length, a
character that may stand between tokens, or something that is no number.
-/

set_option autoImplicit false

namespace Phrasebook.Numeral

open Text

inductive Lexeme where
  | token (length : Nat) (token : Token)
  | gap
  | unreadable
  deriving Repr, DecidableEq

namespace Lexeme

/-- The lexeme of a digit string or word that was found, if it has a token. -/
def ofToken? (length : Nat) : Option Token → Lexeme
  | some found => .token length found
  | none => .unreadable

/-- What stands at the front of a text, given the character and the token before it. -/
abbrev Scanner := Option Char → Option Token → List Char → Lexeme

def scan (scanner : Scanner) (before : Option Char) (previous : Option Token) :
    List Char → Option (List Token)
  | [] => some []
  | c :: rest =>
    match scanner before previous (c :: rest) with
    | .unreadable => none
    | .gap => scan scanner (some c) previous rest
    | .token length found =>
      (scan scanner ((c :: rest).take length).getLast? (some found)
        (rest.drop (length - 1))).map (found :: ·)
termination_by text => text.length
decreasing_by all_goals simp only [List.length_cons, List.length_drop]; omega

/-- All tokens of a text, of which there must be at least one. -/
def tokens? (scanner : Scanner) (text : List Char) : Option (List Token) :=
  (scan scanner none none text).filter fun tokens => !tokens.isEmpty

/-- Words between whitespace, hyphens and commas, or digit strings; both end
where a word ends. -/
def english (vocabulary : Trie Char Token) : Scanner := fun before _ text =>
  let endsAt (length : Nat) : Bool :=
    isWordEdge (text.take length).getLast? (text.drop length).head?
  let starts := isWordEdge before text.head?
  let digits := text.takeWhile isDecimal
  match vocabulary.longestWhere? (fun length => starts && endsAt length) text with
  | some (length, found) => .token length found
  | none =>
    if starts && !digits.isEmpty && endsAt digits.length then
      ofToken? digits.length (Token.explicit? digits)
    else if text.head?.any fun c => isBlank c || c == '-' || c == ',' then .gap
    else .unreadable

/-- Words or digit strings that end at a space or at the end of the text. -/
def french (vocabulary : Trie Char Token) : Scanner := fun _ _ text =>
  let endsAt (length : Nat) : Bool := (text.drop length).head?.all (· == ' ')
  let digits := text.takeWhile Token.isDigit
  if text.head? = some ' ' then .gap
  else
    match vocabulary.longestWhere? endsAt text with
    | some (length, found) => .token length found
    | none =>
      if !digits.isEmpty && endsAt digits.length then
        ofToken? digits.length (Token.explicit? digits)
      else .unreadable

/-- The ASCII form of an ASCII or full-width digit. -/
def asciiDigit? (c : Char) : Option Char :=
  if Token.isDigit c then some c
  else if '０' ≤ c && c ≤ '９' then some (Char.ofNat (c.toNat - '０'.toNat + '0'.toNat))
  else none

/-- Digit strings, or the longest word; nothing marks where a word ends. -/
def japanese (vocabulary : Trie Char Token) : Scanner := fun _ _ text =>
  let digits := text.takeWhile fun c => (asciiDigit? c).isSome
  if text.head?.any isBlank then .gap
  else
    match Token.explicit? (digits.filterMap asciiDigit?) with
    | some found => .token digits.length found
    | none =>
      match vocabulary.longest? text with
      | some (length, found) => .token length found
      | none => .unreadable

def chineseZeros : List Char := ['零', '〇']

/-- The longest word, or a digit string. A zero right after a power of ten
links what follows to it. -/
def chinese (vocabulary : Trie Char Token) : Scanner := fun _ previous text =>
  let digits := text.takeWhile isDecimal
  match vocabulary.longest? text with
  | some (length, found) =>
    let links := length == 1 && text.head?.any chineseZeros.contains &&
      previous.any (Token.isPowerFrom 10)
    .token length (if links then .connector else found)
  | none =>
    if !digits.isEmpty then ofToken? digits.length ((digits.mapM asciiDigit?).bind Token.explicit?)
    else if text.head?.any fun c => isBlank c || c == ',' || c == '，' then .gap
    else .unreadable

end Lexeme

end Phrasebook.Numeral
