import Phrasebook.Words

/-! A place in a text: the characters before it, nearest first, and those after it. -/

set_option autoImplicit false

namespace Phrasebook

open Text

structure Cursor where
  before : List Char
  rest : List Char
  deriving Repr, DecidableEq

namespace Cursor

def atStart (text : List Char) : Cursor := ⟨[], text⟩

def text (cursor : Cursor) : List Char := cursor.before.reverse ++ cursor.rest

def offset (cursor : Cursor) : Nat := byteLength cursor.before

def forward (cursor : Cursor) (count : Nat) : Cursor :=
  ⟨(cursor.rest.take count).reverse ++ cursor.before, cursor.rest.drop count⟩

def skip (cursor : Cursor) (skipped : Char → Bool) : Cursor :=
  ⟨(cursor.rest.takeWhile skipped).reverse ++ cursor.before, cursor.rest.dropWhile skipped⟩

theorem suffixAt?_offset (cursor : Cursor) :
    suffixAt? cursor.text cursor.offset = some cursor.rest := by
  rw [offset, ← byteLength_reverse]
  exact suffixAt?_append ..

@[simp] theorem text_atStart (text : List Char) : (atStart text).text = text := rfl

@[simp] theorem text_forward (cursor : Cursor) (count : Nat) :
    (cursor.forward count).text = cursor.text := by
  simp [text, forward]

@[simp] theorem text_skip (cursor : Cursor) (skipped : Char → Bool) :
    (cursor.skip skipped).text = cursor.text := by
  simp [text, skip]

end Cursor

/-- Whether a word can start or end at a place: at either end of the text, next
to a separator, and anywhere in a language without word spacing. -/
def Orthography.isWordBoundary (o : Orthography) (cursor : Cursor) : Bool :=
  !o.hasWordSpacing || cursor.before.head?.all o.isSeparator || cursor.rest.head?.all o.isSeparator

end Phrasebook
