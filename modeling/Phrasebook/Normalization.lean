import Phrasebook.Orthography
import Phrasebook.Text.FrenchSpacing

/-! The form in which phrases and user input are compared. -/

set_option autoImplicit false

namespace Phrasebook

open Text

structure MatchOptions where
  /-- Take no-break spaces before French punctuation out of the input, and put
  them back into captured values. -/
  normalizeFrenchSpacing : Bool := true
  /-- Drop sentence ends from the end of the input. -/
  stripSentenceEnd : Bool := true
  deriving Repr, DecidableEq

namespace Orthography

/-- Lowercase words, joined by what the language puts between words. -/
def normalizePhrase (o : Orthography) (text : List Char) : List Char :=
  o.wordBoundary.intercalate (words o.isSpace (lower text))

/-- Whether the no-break spaces of French are taken out and put back. -/
def respaces (o : Orthography) (options : MatchOptions) : Bool :=
  o.language == .french && options.normalizeFrenchSpacing

def dropSentenceEnd (o : Orthography) (text : List Char) : List Char :=
  (text.reverse.dropWhile fun c => o.isSentenceEnd c || isBlank c).reverse

def normalizeInput (o : Orthography) (options : MatchOptions) (text : List Char) : List Char :=
  let plain := if o.respaces options then FrenchSpacing.remove text else text
  let normalized := o.normalizePhrase plain
  if options.stripSentenceEnd then o.dropSentenceEnd normalized else normalized

end Orthography

end Phrasebook
