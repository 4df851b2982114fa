import Phrasebook.Text.Blank

/-! The no-break space that French puts before high punctuation. -/

set_option autoImplicit false

namespace Phrasebook.Text.FrenchSpacing

def noBreakSpaces : List Char := ['\u00A0', '\u202F']

/-- Punctuation that loses the no-break space before it. -/
def spacedPunctuation : List Char := [':', ';', '!', '?', '»']

/-- Punctuation that gets a no-break space back. -/
def highPunctuation : List Char := [':', ';', '!', '?']

/-- Drop each no-break space that stands right before spaced punctuation. -/
def remove : List Char → List Char
  | [] => []
  | c :: rest =>
    if noBreakSpaces.contains c && rest.head?.any spacedPunctuation.contains then remove rest
    else c :: remove rest

/-- Put a no-break space before high punctuation that follows a character
other than a blank. -/
def restoreAfter (previous : Option Char) : List Char → List Char
  | [] => []
  | c :: rest =>
    if highPunctuation.contains c && previous.any fun p => !isBlank p then
      '\u00A0' :: c :: restoreAfter (some c) rest
    else c :: restoreAfter (some c) rest

def restore (text : List Char) : List Char := restoreAfter none text

end Phrasebook.Text.FrenchSpacing
