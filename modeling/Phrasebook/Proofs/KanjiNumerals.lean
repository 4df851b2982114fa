import Phrasebook.Proofs.CharacterNumerals
import Phrasebook.Proofs.JapaneseWords

/-! Japanese numerals in number characters.

A one may be left out before ten, hundred and thousand, and gaps are not marked: a
unit right after a multiplier is a unit, so that 千三 is 1003.
-/

set_option autoImplicit false

namespace Phrasebook.Numeral.Japanese

def style : Style where
  omitsOne _ := true
  marksGaps := false

/-- A number below 10^16 that is written in number characters is read as its digits. -/
theorem reads_of_isNumeral {n : Nat} {words : List Word} {text : List Char} (small : n < 10 ^ 16)
    (numeral : IsNumeral style n words)
    (spelled : Spells characters (words.map Word.value) text) :
    Scheme.japanese.reader.read? text = some (Nat.toDigits 10 n) := by
  have whole := spelled.of_subset (List.subset_append_left characters readings)
  cases numeral with
  | zero =>
    rw [read?_of_spells whole (by simp)]
    decide +kernel
  | positive positive said =>
    obtain ⟨place, rest, after, listed, joined, holds⟩ := exists_read_places positive small said
    rw [listed] at said
    have tokens : words.map Word.token = (words.map Word.value).map Token.number := by
      rw [List.map_map]
      exact List.map_congr_left fun word member => Word.token_eq (said.ne_zero rfl word member)
    rw [read?_of_spells whole (by simp [said.ne_nil]), ← tokens]
    refine resolve_words joined ?_ (Nat.lt_trans small (by decide)) said.ne_nil
      said.head?_ne_zero said.getLast?_ne_zero _
    rw [← holds.sum, ← holds.tail]
    rfl

/-- A last unit after a thousand is a unit, and ones may be left out. -/
theorem reads_thousand_three :
    Scheme.japanese.reader.read? "千三".toList = some "1003".toList ∧
      Scheme.japanese.reader.read? "一兆百億二千万千十".toList = some "1010020001010".toList := by
  have thousand : IsNumeral style 1003 [.multiplier 3, .digit 3] :=
    .positive (by decide) <| .cons (.bare (by decide) rfl rfl) <| .cons (.unit rfl) .nil
  have trillion : IsNumeral style 1010020001010 [.digit 1, .multiplier 12, .multiplier 2,
      .multiplier 8, .digit 2, .multiplier 3, .multiplier 4, .multiplier 3, .multiplier 1] :=
    .positive (by decide) <| .cons (.unit rfl) <| .cons (.bare (by decide) rfl rfl) <|
      .cons (.full (by decide)) <| .cons (.bare (by decide) rfl rfl) <|
      .cons (.bare (by decide) rfl rfl) .nil
  have short : Spells characters _ "千三".toList :=
    spells_of_subset [(1000, "千"), (3, "三")] (by decide) rfl (by decide +kernel)
  have long : Spells characters _ "一兆百億二千万千十".toList :=
    spells_of_subset [(1, "一"), (1000000000000, "兆"), (100, "百"), (100000000, "億"), (2, "二"),
      (1000, "千"), (10000, "万"), (1000, "千"), (10, "十")] (by decide) rfl (by decide +kernel)
  exact ⟨reads_of_isNumeral (by decide) thousand short,
    reads_of_isNumeral (by decide) trillion long⟩

/-- Every number has a numeral that can be written. -/
theorem exists_isNumeral_spells (n : Nat) :
    ∃ words text, IsNumeral style n words ∧ Spells characters (words.map Word.value) text := by
  obtain ⟨words, numeral⟩ := exists_isNumeral style n
  have named : ∀ word : Word, word.isUsual = true → word.value ∈ characters.map Prod.fst := by
    have digits : ∀ value < 10, value ∈ characters.map Prod.fst := by decide
    have multipliers : ∀ exponent ∈ [1, 2, 3, 4, 8, 12],
        10 ^ exponent ∈ characters.map Prod.fst := by
      decide
    intro word usual
    cases word with
    | digit value => exact digits value (of_decide_eq_true usual).2
    | multiplier exponent => exact multipliers exponent (by simpa [Word.isUsual] using usual)
    | zero => decide
  have listed : ∀ value ∈ words.map Word.value, value ∈ characters.map Prod.fst := by
    intro value member
    obtain ⟨word, said, rfl⟩ := List.mem_map.1 member
    exact named word (numeral.isUsual word said)
  obtain ⟨text, spelled⟩ := exists_spells _ listed
  exact ⟨words, text, numeral, spelled⟩

end Phrasebook.Numeral.Japanese
