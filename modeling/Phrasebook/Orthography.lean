import Phrasebook.Language
import Phrasebook.Text.Offset

/-! What counts as whitespace and punctuation in each language.

User input and phrase templates have tables of their own: templates drop some
signs that input keeps. Separators of an input are its whitespace and its
punctuation, sentence ends included.
-/

set_option autoImplicit false

namespace Phrasebook

open Text

structure CharClasses where
  whitespace : Bool
  punctuation : Bool
  sentenceEnd : Bool
  deriving Repr, DecidableEq

/-- Punctuation that is no whitespace can be skipped. -/
def CharClasses.isSkippable (classes : CharClasses) : Bool :=
  classes.punctuation && !classes.whitespace

structure Orthography where
  language : Language
  whitespace : List Char
  inputPunctuation : List Char
  patternPunctuation : List Char
  sentenceEnds : List Char
  /-- What stands between two words; empty in a language without word spacing. -/
  wordBoundary : List Char
  rightToLeft : Bool
  deriving Repr, DecidableEq

namespace Orthography

def spacedWhitespace : List Char := " \t\n\r\u000B\u000C\u00A0\u2009\u202F\u3000".toList

def unspacedWhitespace : List Char := " \t\n\r\u000B\u000C\u00A0\u3000".toList

def latinInputPunctuation : List Char := ",;:.!?\"'`’‘“”«»…–—-/".toList

def latinPatternPunctuation : List Char := ",;:.!?\"'`’‘“”«»…–—-/¿¡*#~".toList

def latin (language : Language) : Orthography where
  language := language
  whitespace := spacedWhitespace
  inputPunctuation := latinInputPunctuation
  patternPunctuation := latinPatternPunctuation
  sentenceEnds := ".!?…".toList
  wordBoundary := [' ']
  rightToLeft := false

def spanish : Orthography :=
  { latin .spanish with inputPunctuation := ",;:.!?\"'`’‘“”«»…–—-/¿¡".toList }

def japanese : Orthography where
  language := .japanese
  whitespace := unspacedWhitespace
  inputPunctuation := "、。，．！？：；・「」『』（）…〜!?,.".toList
  patternPunctuation := "、。，．！？：；・「」『』（）…〜!?,.\"'*#".toList
  sentenceEnds := "。．！？!?.".toList
  wordBoundary := []
  rightToLeft := false

def chinese : Orthography where
  language := .chinese
  whitespace := unspacedWhitespace
  inputPunctuation := "，。！？、；：“”‘’（）《》…·!?,.".toList
  patternPunctuation := "，。！？、；：“”‘’（）《》…·!?,.\"'*#".toList
  sentenceEnds := "。！？!?.".toList
  wordBoundary := []
  rightToLeft := false

def ofLanguage : Language → Orthography
  | .spanish => spanish
  | .japanese => japanese
  | .chinese => chinese
  | .english => latin .english
  | .german => latin .german
  | .french => latin .french
  | .italian => latin .italian
  | .portuguese => latin .portuguese

@[simp] theorem language_ofLanguage (language : Language) :
    (ofLanguage language).language = language := by
  cases language <;> rfl

/-- The orthography of a language tag; a tag of no known language means English. -/
def ofTag (tag : List Char) : Orthography := ofLanguage ((Language.ofTag? tag).getD .english)

def hasWordSpacing (o : Orthography) : Bool := !o.wordBoundary.isEmpty

def isWhitespace (o : Orthography) (c : Char) : Bool := o.whitespace.contains c

def isSentenceEnd (o : Orthography) (c : Char) : Bool := o.sentenceEnds.contains c

/-- Whitespace of the language or of any other. -/
def isSpace (o : Orthography) (c : Char) : Bool := o.isWhitespace c || isBlank c

def classify (o : Orthography) (punctuation : List Char) (c : Char) : Option CharClasses :=
  let classes : CharClasses :=
    { whitespace := o.isWhitespace c
      punctuation := punctuation.contains c || o.isSentenceEnd c
      sentenceEnd := o.isSentenceEnd c }
  if classes.whitespace || classes.punctuation then some classes else none

/-- Classes of a character of user input. -/
def inputClasses (o : Orthography) (c : Char) : Option CharClasses :=
  o.classify o.inputPunctuation c

/-- Classes of a character of a phrase template. -/
def patternClasses (o : Orthography) (c : Char) : Option CharClasses :=
  o.classify o.patternPunctuation c

def isInputPunctuation (o : Orthography) (c : Char) : Bool :=
  (o.inputClasses c).any CharClasses.isSkippable

def isPatternPunctuation (o : Orthography) (c : Char) : Bool :=
  (o.patternClasses c).any CharClasses.isSkippable

/-- Whitespace or punctuation of user input. -/
def isSeparator (o : Orthography) (c : Char) : Bool := (o.inputClasses c).isSome

theorem isSeparator_iff (o : Orthography) (c : Char) :
    o.isSeparator c = true ↔
      c ∈ o.whitespace ∨ c ∈ o.inputPunctuation ∨ c ∈ o.sentenceEnds := by
  simp [isSeparator, inputClasses, classify, isWhitespace, isSentenceEnd]

/-- Punctuation is skippable only where it is no whitespace. -/
theorem isSkippable_classify_iff (o : Orthography) (punctuation : List Char) (c : Char) :
    (o.classify punctuation c).any CharClasses.isSkippable = true ↔
      (c ∈ punctuation ∨ c ∈ o.sentenceEnds) ∧ c ∉ o.whitespace := by
  by_cases space : c ∈ o.whitespace <;> by_cases stop : c ∈ o.sentenceEnds <;>
    by_cases sign : c ∈ punctuation <;>
    simp [classify, isWhitespace, isSentenceEnd, CharClasses.isSkippable, space, stop, sign]

theorem isInputPunctuation_iff (o : Orthography) (c : Char) :
    o.isInputPunctuation c = true ↔
      (c ∈ o.inputPunctuation ∨ c ∈ o.sentenceEnds) ∧ c ∉ o.whitespace :=
  o.isSkippable_classify_iff o.inputPunctuation c

theorem isPatternPunctuation_iff (o : Orthography) (c : Char) :
    o.isPatternPunctuation c = true ↔
      (c ∈ o.patternPunctuation ∨ c ∈ o.sentenceEnds) ∧ c ∉ o.whitespace :=
  o.isSkippable_classify_iff o.patternPunctuation c

/-- The offset after the run of characters of a class at `offset`; an offset
that is no position of the text stays. -/
def skipAt (skipped : Char → Bool) (text : List Char) (offset : Nat) : Nat :=
  match suffixAt? text offset with
  | none => offset
  | some rest => offset + byteLength (rest.takeWhile skipped)

/-- The classes and the byte length of the character at an offset. -/
def classAt (classes : Char → Option CharClasses) (text : List Char) (offset : Nat) :
    Option (CharClasses × Nat) :=
  match suffixAt? text offset with
  | some (c :: _) => (classes c).map fun found => (found, c.utf8Size)
  | _ => none

def inputClassAt (o : Orthography) : List Char → Nat → Option (CharClasses × Nat) :=
  classAt o.inputClasses

def patternClassAt (o : Orthography) : List Char → Nat → Option (CharClasses × Nat) :=
  classAt o.patternClasses

def isInputPunctuationAt (o : Orthography) (text : List Char) (offset : Nat) : Bool :=
  (o.inputClassAt text offset).any fun found => found.1.isSkippable

def skipInputPunctuation (o : Orthography) : List Char → Nat → Nat := skipAt o.isInputPunctuation

def skipInputSeparators (o : Orthography) : List Char → Nat → Nat := skipAt o.isSeparator

def skipPatternPunctuation (o : Orthography) : List Char → Nat → Nat :=
  skipAt o.isPatternPunctuation

end Orthography

end Phrasebook
