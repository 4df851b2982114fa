import Phrasebook.Text.CaseTable

/-! Lowercase forms of characters and texts.

A text is lowered character by character, with one exception: a capital sigma
at the end of a word takes its final form.
-/

set_option autoImplicit false

namespace Phrasebook.Text

def lowerChar (c : Char) : List Char :=
  if c = 'İ' then ['i', '\u0307']
  else
    match lowercaseRuns.find? fun run => run.covers c.toNat with
    | some run => [Char.ofNat (run.apply c.toNat)]
    | none => [c]

/-- Whether the nearest character that is not transparent to case has case. -/
def nearestIsCased (context : List Char) : Bool :=
  match context.dropWhile isCaseIgnorable with
  | [] => false
  | c :: _ => isCased c

/-- Lower a text that follows `before`, which is given nearest character first. -/
def lowerAfter (before : List Char) : List Char → List Char
  | [] => []
  | c :: rest =>
    let lowered :=
      if c = 'Σ' then
        if nearestIsCased before && !nearestIsCased rest then ['ς'] else ['σ']
      else lowerChar c
    lowered ++ lowerAfter (c :: before) rest

def lower (text : List Char) : List Char := lowerAfter [] text

@[simp] theorem lower_nil : lower [] = [] := rfl

end Phrasebook.Text
