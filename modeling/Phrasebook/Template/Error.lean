/-! What can be wrong with a phrase template. -/

set_option autoImplicit false

namespace Phrasebook

/-- A fault at one character of a template. -/
inductive TemplateFault where
  | unclosedSlot
  | nestedSlot
  | emptySlotName
  | unclosedGroup (opener : Char)
  | unexpectedCloser (closer : Char)
  | alternativeOutsideGroup
  deriving Repr, DecidableEq

inductive TemplateError where
  /-- Nothing in the template can be matched. -/
  | emptyPhrase
  /-- A fault at a byte offset of the phrase, which has no blanks at its ends. -/
  | fault (fault : TemplateFault) (phrase : String) (position : Nat)
  deriving Repr, DecidableEq

def TemplateFault.describe : TemplateFault → String
  | unclosedSlot => "Unclosed '\x7b'"
  | nestedSlot => "Nested '\x7b'"
  | emptySlotName => "Empty entity name"
  | unclosedGroup opener => "Unclosed '" ++ opener.toString ++ "'"
  | unexpectedCloser closer => "Unexpected '" ++ closer.toString ++ "'"
  | alternativeOutsideGroup => "'|' outside of a group"

def TemplateError.message : TemplateError → String
  | emptyPhrase => "Pattern phrase is empty"
  | fault found phrase position =>
    found.describe ++ " at byte " ++ toString position ++ " in '" ++ phrase ++ "'"

end Phrasebook
