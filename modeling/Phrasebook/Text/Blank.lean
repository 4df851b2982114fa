import Phrasebook.Text.Ranges

/-! Blank characters and the words between them.

A blank is a character with the Unicode property White_Space. Words are the
nonempty pieces of a text between characters of a chosen class.
-/

set_option autoImplicit false

namespace Phrasebook.Text

def blankRanges : List (Nat × Nat) :=
  [(0x09, 0x0D), (0x20, 0x20), (0x85, 0x85), (0xA0, 0xA0), (0x1680, 0x1680), (0x2000, 0x200A),
    (0x2028, 0x2029), (0x202F, 0x202F), (0x205F, 0x205F), (0x3000, 0x3000)]

def isBlank (c : Char) : Bool := inRanges blankRanges c

def trim (text : List Char) : List Char :=
  ((text.dropWhile isBlank).reverse.dropWhile isBlank).reverse

/-- A text is what is kept of it and what is dropped from its end. -/
theorem append_dropped (dropped : Char → Bool) (text : List Char) :
    (text.reverse.dropWhile dropped).reverse ++ (text.reverse.takeWhile dropped).reverse =
      text := by
  rw [← List.reverse_append, List.takeWhile_append_dropWhile, List.reverse_reverse]

def isBlankText (text : List Char) : Bool := text.all isBlank

/-- The pieces between gap characters, empty ones included. -/
def pieces (gap : Char → Bool) : List Char → List (List Char)
  | [] => [[]]
  | c :: rest =>
    if gap c then [] :: pieces gap rest
    else
      match pieces gap rest with
      | [] => [[c]]
      | piece :: others => (c :: piece) :: others

/-- The maximal nonempty runs without a gap character. -/
def words (gap : Char → Bool) (text : List Char) : List (List Char) :=
  (pieces gap text).filter fun piece => !piece.isEmpty

theorem pieces_ne_nil (gap : Char → Bool) (text : List Char) : pieces gap text ≠ [] := by
  cases text with
  | nil => simp [pieces]
  | cons c rest =>
    unfold pieces
    split
    · simp
    · split <;> simp

theorem words_nil (gap : Char → Bool) : words gap [] = [] := rfl

theorem not_gap_of_mem_pieces {gap : Char → Bool} {text piece : List Char}
    (member : piece ∈ pieces gap text) : ∀ c ∈ piece, gap c = false := by
  induction text generalizing piece with
  | nil => simp_all [pieces]
  | cons c rest ih =>
    unfold pieces at member
    split at member
    · rcases List.mem_cons.1 member with rfl | member
      · simp
      · exact ih member
    · next solid =>
      split at member
      · simp_all
      · next first others eq =>
        rcases List.mem_cons.1 member with rfl | member
        · intro d hd
          rcases List.mem_cons.1 hd with rfl | hd
          · simpa using solid
          · exact ih (by simp [eq]) d hd
        · exact ih (by simp [eq, member])

theorem not_gap_of_mem_words {gap : Char → Bool} {text word : List Char}
    (member : word ∈ words gap text) : ∀ c ∈ word, gap c = false :=
  not_gap_of_mem_pieces (List.mem_filter.1 member).1

theorem ne_nil_of_mem_words {gap : Char → Bool} {text word : List Char}
    (member : word ∈ words gap text) : word ≠ [] := by
  have := (List.mem_filter.1 member).2
  simpa using this

end Phrasebook.Text
