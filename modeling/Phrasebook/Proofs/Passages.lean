import Phrasebook.Matching

/-! Matching one part at a time.

A part other than a group can pass a piece of the text in several ways, which are
tried in order: `Matcher.passages` lists them. A group tries a whole sequence of
parts for each alternative. Together they give one equation of `matchParts` for
each kind of part.
-/

set_option autoImplicit false

namespace Phrasebook

open Text

/-- A part other than a group. -/
def Part.isPlain : Part → Bool
  | .letter _ | .space | .boundary | .slot _ => true
  | .group .. => false

/-- One way to pass a part: the place after it, and what it adds to the match of
the rest. -/
structure Passage where
  next : Cursor
  bytes : Nat := 0
  capture : Option (String × EntityValue) := none

def Passage.extend (passage : Passage) (found : Match) : Match :=
  match passage.capture with
  | none => found.addBytes passage.bytes
  | some (name, value) => (found.addCapture name value).addBytes passage.bytes

theorem Passage.bytes_extend (passage : Passage) (found : Match) :
    (passage.extend found).bytes = found.bytes + passage.bytes := by
  unfold extend
  split <;> rfl

theorem Passage.extend_stay (next : Cursor) : (Passage.mk next 0 none).extend = id := rfl

theorem Orthography.isSeparator_of_isInputPunctuation {o : Orthography} {c : Char}
    (sign : o.isInputPunctuation c = true) : o.isSeparator c = true := by
  rw [isInputPunctuation_iff] at sign
  exact (o.isSeparator_iff c).2 (Or.inr sign.1)

namespace Matcher

variable (m : Matcher)

/-- The captures of a slot at a settled place. -/
def captures (name : List Char) (cursor : Cursor) : List Passage :=
  let start := cursor.skip m.orthography.isSeparator
  (m.candidates (m.entityOf name) start.rest).filterMap fun taken =>
    (m.capture? (m.entityOf name) taken).map fun value =>
      { next := start.forward taken.length
        bytes := m.orthography.significantLength (m.orthography.trimEnd taken)
        capture := some (String.ofList name, value) }

/-- The ways to pass a part other than a group at a settled place, in order. -/
def passages (part : Part) (cursor : Cursor) : List Passage :=
  match part with
  | .letter c =>
    if cursor.rest.head? = some c then [{ next := cursor.forward 1, bytes := c.utf8Size }] else []
  | .space =>
    if cursor.rest.head?.any m.orthography.isSpace then
      [{ next := cursor.skip m.orthography.isSpace }]
    else if m.orthography.isWordBoundary cursor then [{ next := cursor }]
    else []
  | .boundary => if m.orthography.isWordBoundary cursor then [{ next := cursor }] else []
  | .slot name =>
    m.captures name cursor ++
      if 0 < (m.entityOf name).greed && !(m.entityOf name).isRequired then [{ next := cursor }]
      else []
  | .group .. => []

theorem matchParts_nil (cursor : Cursor) :
    m.matchParts [] cursor =
      if (m.settle cursor).rest.all m.orthography.isSeparator then some .empty else none := by
  rw [matchParts]

theorem findSome?_captures (name : List Char) (cursor : Cursor)
    (matchRest : Cursor → Option Match) :
    ((m.captures name cursor).findSome? fun passage =>
        (matchRest passage.next).map passage.extend) =
      (m.candidates (m.entityOf name) (cursor.skip m.orthography.isSeparator).rest).findSome?
        fun taken =>
          m.tryCapture (m.entityOf name) name (cursor.skip m.orthography.isSeparator) taken
            matchRest := by
  unfold captures
  -- Both sides take the first result of one traversal of the candidates.
  rw [← List.head?_filterMap, List.filterMap_filterMap, List.head?_filterMap]
  congr 1
  funext taken
  unfold tryCapture
  cases m.capture? (m.entityOf name) taken <;> rfl

theorem matchParts_cons {part : Part} (plain : part.isPlain = true) (rest : List Part)
    (cursor : Cursor) :
    m.matchParts (part :: rest) cursor =
      (m.passages part (m.settle cursor)).findSome? fun passage =>
        (m.matchParts rest passage.next).map passage.extend := by
  cases part with
  | letter c =>
    rw [matchParts]
    cases ahead : (m.settle cursor).rest with
    | nil => simp [passages, ahead]
    | cons d others =>
      by_cases same : d = c
      · simp [passages, ahead, same]
        rfl
      · simp [passages, ahead, same]
  | space =>
    rw [matchParts, matchSpace, passages]
    split
    · simp [Passage.extend_stay]
    · split <;> simp [Passage.extend_stay]
  | boundary =>
    rw [matchParts, passages]
    split <;> simp [Passage.extend_stay]
  | slot name =>
    rw [matchParts, matchSlot, passages, List.findSome?_append, findSome?_captures]
    split
    · next found eq => rw [eq]; rfl
    · next eq =>
      rw [eq]
      split <;> simp [Passage.extend_stay]
  | group optional alternatives => simp [Part.isPlain] at plain

theorem matchAny_eq_findSome? (alternatives : List (List Part)) (rest : List Part)
    (cursor : Cursor) :
    m.matchAny alternatives rest cursor =
      alternatives.findSome? fun alternative => m.matchParts (alternative ++ rest) cursor := by
  induction alternatives with
  | nil => rw [matchAny]; rfl
  | cons alternative others ih =>
    rw [matchAny, ih, List.findSome?_cons]
    cases m.matchParts (alternative ++ rest) cursor <;> rfl

theorem matchParts_group (optional : Bool) (alternatives : List (List Part)) (rest : List Part)
    (cursor : Cursor) :
    m.matchParts (.group optional alternatives :: rest) cursor =
      ((alternatives.findSome? fun alternative =>
          m.matchParts (alternative ++ rest) (m.settle cursor)).or
        (if optional then m.matchParts rest (m.settle cursor) else none)) := by
  rw [matchParts, matchAny_eq_findSome?]
  cases alternatives.findSome? fun alternative =>
    m.matchParts (alternative ++ rest) (m.settle cursor) <;> rfl

/-- After settling no punctuation is ahead. -/
theorem head?_settle (cursor : Cursor) :
    (m.settle cursor).rest.head?.any m.orthography.isInputPunctuation = false := by
  by_cases sign : cursor.rest.head?.any m.orthography.isInputPunctuation = true
  · rw [settle, if_pos sign, ← Bool.not_eq_true]
    intro ahead
    obtain ⟨c, head, punctuation⟩ := (Option.any_eq_true _ _).1 ahead
    have solid := List.head?_dropWhile_not m.orthography.isSeparator
      (cursor.skip m.orthography.isInputPunctuation).rest
    rw [show (List.dropWhile _ _).head? = some c from head] at solid
    simp [Orthography.isSeparator_of_isInputPunctuation punctuation] at solid
  · rw [settle, if_neg sign]
    exact Bool.not_eq_true _ ▸ sign

theorem settle_settle (cursor : Cursor) : m.settle (m.settle cursor) = m.settle cursor := by
  rw [settle, if_neg (by simp [head?_settle])]

/-- Matching starts by settling. -/
theorem matchParts_settle (parts : List Part) (cursor : Cursor) :
    m.matchParts parts (m.settle cursor) = m.matchParts parts cursor := by
  cases parts with
  | nil => rw [matchParts_nil, matchParts_nil, settle_settle]
  | cons part rest =>
    by_cases plain : part.isPlain = true
    · rw [matchParts_cons m plain, matchParts_cons m plain, settle_settle]
    · cases part with
      | group optional alternatives => rw [matchParts_group, matchParts_group, settle_settle]
      | letter c | space | boundary | slot name => simp [Part.isPlain] at plain

end Matcher

end Phrasebook
