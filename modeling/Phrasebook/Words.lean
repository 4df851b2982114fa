import Phrasebook.Orthography

/-! Words of a normalized text.

A word starts after separators. It runs to the next whitespace; in a language
without word spacing it is one character. Words are counted and taken from the
front, and given back from the end.
-/

set_option autoImplicit false

namespace Phrasebook

open Text

/-- The next word of a text, with the separators before it and the text after it. -/
structure NextWord where
  gap : List Char
  word : List Char
  rest : List Char
  deriving Repr, DecidableEq

namespace Orthography

def wordFrom (o : Orthography) (c : Char) (rest : List Char) : List Char :=
  if o.hasWordSpacing then (c :: rest).takeWhile fun d => !o.isSpace d else [c]

def nextWord? (o : Orthography) (text : List Char) : Option NextWord :=
  match text.dropWhile o.isSeparator with
  | [] => none
  | c :: rest =>
    let word := o.wordFrom c rest
    some
      { gap := text.takeWhile o.isSeparator
        word := word
        rest := (c :: rest).drop word.length }

theorem wordFrom_prefix (o : Orthography) (c : Char) (rest : List Char) :
    o.wordFrom c rest <+: c :: rest := by
  unfold wordFrom
  split
  · exact List.takeWhile_prefix _
  · simp

/-- The three parts are the text. -/
theorem append_of_nextWord? {o : Orthography} {text : List Char} {next : NextWord}
    (found : o.nextWord? text = some next) : next.gap ++ next.word ++ next.rest = text := by
  unfold nextWord? at found
  split at found
  · simp at found
  · next c rest eq =>
    obtain ⟨after, split⟩ := o.wordFrom_prefix c rest
    simp only [Option.some.injEq] at found
    subst found
    rw [List.append_assoc, ← split, List.drop_left, split, ← eq, List.takeWhile_append_dropWhile]

def wordsOf (o : Orthography) (text : List Char) : List NextWord :=
  match o.nextWord? text with
  | none => []
  | some next => if next.rest.length < text.length then next :: o.wordsOf next.rest else []
termination_by text.length

def countWords (o : Orthography) (text : List Char) : Nat := (o.wordsOf text).length

/-- The prefixes of a text that end with its first, second, … word, at most
`limit` of them. -/
def grown (o : Orthography) : Nat → List Char → List (List Char)
  | 0, _ => []
  | limit + 1, text =>
    match o.nextWord? text with
    | none => []
    | some next =>
      let taken := next.gap ++ next.word
      taken :: (o.grown limit next.rest).map (taken ++ ·)

def trimEnd (o : Orthography) (text : List Char) : List Char :=
  (text.reverse.dropWhile o.isSeparator).reverse

def dropWord (o : Orthography) (text : List Char) : List Char :=
  let kept := (o.trimEnd text).reverse
  (if o.hasWordSpacing then kept.dropWhile fun c => !o.isSpace c else kept.drop 1).reverse

/-- What is left of a text without its last word, ending in no separator. -/
def dropLastWord (o : Orthography) (text : List Char) : List Char := o.trimEnd (o.dropWord text)

/-- A text, the text without its last word, without its last two words, and so on. -/
def shrunk (o : Orthography) (text : List Char) : List (List Char) :=
  if text = [] then []
  else
    text ::
      (if (o.dropLastWord text).length < text.length then o.shrunk (o.dropLastWord text) else [])
termination_by text.length

/-- The byte span of the next word at or after an offset. -/
def grabNextWord (o : Orthography) (text : List Char) (offset : Nat) : Option (Nat × Nat) :=
  ((suffixAt? text offset).bind o.nextWord?).map fun next =>
    let start := offset + byteLength next.gap
    (start, start + byteLength next.word)

/-- The characters of a text that end after an offset, and the offset at which
the first of them starts. -/
def reaching (offset : Nat) : Nat → List Char → Nat × List Char
  | start, [] => (start, [])
  | start, c :: rest =>
    if start + c.utf8Size ≤ offset then reaching offset (start + c.utf8Size) rest
    else (start, c :: rest)

/-- The end of a byte span without the separators at its end. -/
def trimEndSeparators (o : Orthography) (text : List Char) (start stop : Nat) : Nat :=
  let inside := min stop (byteLength text)
  match splitAt? text inside with
  | none => inside
  | some (before, _) =>
    let (first, span) := reaching start 0 before
    first + byteLength (o.trimEnd span)

/-- The end of a byte span after its last word is given back. A character that
only reaches into the span counts as its first. -/
def removeLastToken (o : Orthography) (text : List Char) (start stop : Nat) : Nat :=
  match splitAt? text (min stop (byteLength text)) with
  | none => start
  | some (before, _) =>
    let (first, span) := reaching start 0 before
    let stopOf (part : List Char) : Nat := first + byteLength part
    if stopOf (o.trimEnd span) ≤ start ∨ stopOf (o.dropWord span) ≤ start then start
    else stopOf (o.dropLastWord span)

end Orthography

end Phrasebook
