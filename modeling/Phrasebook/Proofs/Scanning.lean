import Phrasebook.Numeral.Lexeme
import Phrasebook.Proofs.Casing

/-! Words and the gaps between them, as a scanner goes over a text.

A blank, a hyphen or a comma stands between the words of a numeral. A scanner passes
over a gap and takes a word as a whole.
-/

set_option autoImplicit false

namespace Phrasebook

namespace Text

/-- Ranges that lie apart have no character in common. -/
theorem not_inRanges_of_apart {first second : List (Nat × Nat)}
    (apart : ∀ one ∈ first, ∀ other ∈ second, one.2 < other.1 ∨ other.2 < one.1) {c : Char}
    (inside : inRanges first c = true) : inRanges second c = false := by
  rw [← Bool.not_eq_true]
  intro again
  obtain ⟨one, listed, low, high⟩ := inRanges_iff.1 inside
  obtain ⟨other, present, least, most⟩ := inRanges_iff.1 again
  have := apart one listed other present
  omega

/-- What may stand between the words of a numeral. -/
def isWordGap (c : Char) : Bool := isBlank c || c == '-' || c == ','

/-- Blanks, the comma and the hyphen. -/
def gapRanges : List (Nat × Nat) := (0x2C, 0x2D) :: blankRanges

theorem inRanges_of_isWordGap {c : Char} (gap : isWordGap c = true) :
    inRanges gapRanges c = true := by
  simp only [isWordGap, Bool.or_eq_true, beq_iff_eq] at gap
  rw [inRanges_iff]
  rcases gap with (blank | rfl) | rfl
  · obtain ⟨range, listed, bounds⟩ := inRanges_iff.1 blank
    exact ⟨range, List.mem_cons_of_mem _ listed, bounds⟩
  · exact ⟨_, List.mem_cons_self .., by decide, by decide⟩
  · exact ⟨_, List.mem_cons_self .., by decide, by decide⟩

theorem not_isWordChar_of_isWordGap {c : Char} (gap : isWordGap c = true) :
    isWordChar c = false :=
  not_inRanges_of_apart (by decide +kernel) (inRanges_of_isWordGap gap)

theorem not_isBlank_of_isWordChar {c : Char} (letter : isWordChar c = true) :
    isBlank c = false := by
  rw [← Bool.not_eq_true]
  intro blank
  rw [not_isWordChar_of_isWordGap (by simp [isWordGap, blank])] at letter
  cases letter

theorem not_isDecimal_of_isWordGap {c : Char} (gap : isWordGap c = true) : isDecimal c = false :=
  not_inRanges_of_apart (by decide +kernel) (inRanges_of_isWordGap gap)

/-- Decimal digits are word characters. -/
theorem isWordChar_of_isDecimal {c : Char} (digit : isDecimal c = true) : isWordChar c = true := by
  have within : decimalRanges.all (fun range => wordRanges.any fun block =>
      block.1.ble range.1 && range.2.ble block.2) = true := by
    decide +kernel
  obtain ⟨range, listed, low, high⟩ := inRanges_iff.1 digit
  obtain ⟨block, member, covers⟩ := List.any_eq_true.1 (List.all_eq_true.1 within range listed)
  rw [Bool.and_eq_true, Nat.ble_eq, Nat.ble_eq] at covers
  exact inRanges_iff.2 ⟨block, member, Nat.le_trans covers.1 low, Nat.le_trans high covers.2⟩

theorem isCaseless_of_isWordGap {c : Char} (gap : isWordGap c = true) : isCaseless c = true := by
  simp only [isWordGap, Bool.or_eq_true, beq_iff_eq] at gap
  rcases gap with (blank | rfl) | rfl
  · exact isCaseless_of_isBlank blank
  · decide
  · decide

theorem map_toLower_of_isWordGap {gaps : List Char} (all : gaps.all isWordGap = true) :
    gaps.map Char.toLower = gaps := by
  rw [List.map_congr_left fun c member => toLower_of_isCaseless (isCaseless_of_isWordGap
    (List.all_eq_true.1 all c member))]
  exact List.map_id _

theorem isWordChar_of_isLower {c : Char} (letter : c.isLower = true) : isWordChar c = true :=
  inRanges_iff.2 ⟨(0x61, 0x7A), by decide, bounds_of_isLower letter⟩

end Text

namespace Numeral.Lexeme

variable {scanner : Scanner} {before : Option Char} {previous : Option Token}

theorem scan_cons_of_gap {c : Char} {rest : List Char}
    (step : scanner before previous (c :: rest) = .gap) :
    scan scanner before previous (c :: rest) = scan scanner (some c) previous rest := by
  rw [scan, step]

theorem scan_of_unreadable {text : List Char} (nonempty : text ≠ [])
    (step : scanner before previous text = .unreadable) :
    scan scanner before previous text = none := by
  obtain ⟨c, rest, rfl⟩ := List.exists_cons_of_ne_nil nonempty
  rw [scan, step]

theorem scan_append_of_token {word rest : List Char} {found : Token} (nonempty : word ≠ [])
    (step : scanner before previous (word ++ rest) = .token word.length found) :
    scan scanner before previous (word ++ rest) =
      (scan scanner word.getLast? (some found) rest).map (found :: ·) := by
  obtain ⟨c, others, rfl⟩ := List.exists_cons_of_ne_nil nonempty
  rw [List.cons_append] at step ⊢
  rw [scan, step]
  simp only
  rw [← List.cons_append, List.take_left, List.length_cons, Nat.add_sub_cancel, List.drop_left]

end Numeral.Lexeme

end Phrasebook
