import Phrasebook.Numeral.Registry
import Phrasebook.Proofs.EnglishNumerals
import Phrasebook.Proofs.Scanning
import Phrasebook.Proofs.Vocabulary

/-! English numerals in a text.

The words may be written in capitals, and between two words stands at least one
blank, hyphen or comma. Every word is found as a whole, so that the text is read
as the number.
-/

set_option autoImplicit false

namespace Phrasebook

open Text

namespace Numeral.English

/-- The number words, by their values. -/
def names : List (Nat × String) :=
  [(0, "zero"), (1, "one"), (2, "two"), (3, "three"), (4, "four"), (5, "five"), (6, "six"),
    (7, "seven"), (8, "eight"), (9, "nine"), (10, "ten"), (11, "eleven"), (12, "twelve"),
    (13, "thirteen"), (14, "fourteen"), (15, "fifteen"), (16, "sixteen"), (17, "seventeen"),
    (18, "eighteen"), (19, "nineteen"), (20, "twenty"), (30, "thirty"), (40, "forty"),
    (50, "fifty"), (60, "sixty"), (70, "seventy"), (80, "eighty"), (90, "ninety"),
    (100, "hundred"), (1000, "thousand"), (1000000, "million"), (1000000000, "billion"),
    (1000000000000, "trillion")]

/-- How a word is written in lowercase letters. -/
def Spoken.IsWritten : Spoken → List Char → Prop
  | number value, written => (value, String.ofList written) ∈ names
  | link, written => written = "and".toList

instance : ∀ (word : Spoken) (written : List Char), Decidable (word.IsWritten written)
  | .number value, written => inferInstanceAs (Decidable ((value, String.ofList written) ∈ names))
  | .link, written => inferInstanceAs (Decidable (written = "and".toList))

/-- A text of some words, in any capitals, with gaps between them. -/
inductive IsSpelling : List Spoken → List Char → Prop where
  | last {word : Spoken} (text : List Char) : word.IsWritten (text.map Char.toLower) →
      IsSpelling [word] text
  | cons {word : Spoken} {rest : List Spoken} {others : List Char} (text gap : List Char) :
      word.IsWritten (text.map Char.toLower) → gap ≠ [] → gap.all isWordGap = true →
      IsSpelling rest others → IsSpelling (word :: rest) (text ++ gap ++ others)

abbrev vocabulary : Trie Char Token := Lexicon.english.vocabulary

theorem get?_of_isWritten {word : Spoken} {written : List Char} (writes : word.IsWritten written) :
    vocabulary.get? written = some word.token := by
  cases word with
  | number value =>
    have checked : ∀ entry ∈ names,
        vocabulary.get? entry.2.toList = some (.number entry.1) := by
      decide +kernel
    have stored := checked _ writes
    rwa [String.toList_ofList] at stored
  | link =>
    have linking : vocabulary.get? "and".toList = some .connector := by decide +kernel
    rwa [← show written = "and".toList from writes] at linking

/-- All words of the vocabulary are made of lowercase letters. -/
theorem isLower_of_get? {key : List Char} {token : Token}
    (found : vocabulary.get? key = some token) : ∀ c ∈ key, c.isLower = true := by
  have checked : Lexicon.english.entries.all (fun entry => entry.word.all Char.isLower) = true := by
    decide +kernel
  have listed := Trie.mem_of_get?_ofList found
  obtain ⟨entry, member, eq⟩ := List.mem_map.1 listed
  cases eq
  exact List.all_eq_true.1 (List.all_eq_true.1 checked entry member)

theorem not_isLower_of_isWordGap {c : Char} (gap : isWordGap c = true) : c.isLower = false := by
  rw [← Bool.not_eq_true]
  intro letter
  have word := isWordChar_of_isLower letter
  rw [not_isWordChar_of_isWordGap gap] at word
  simp at word

/-- A key that reaches over a gap is no word. -/
theorem get?_eq_none_of_mem {key : List Char} {c : Char} (gap : isWordGap c = true)
    (member : c ∈ key) : vocabulary.get? key = none := by
  cases found : vocabulary.get? key with
  | none => rfl
  | some token =>
    have letter := isLower_of_get? found c member
    simp [not_isLower_of_isWordGap gap] at letter

theorem isWordChar_of_mem {word : Spoken} {written : List Char} (writes : word.IsWritten written)
    {c : Char} (member : c ∈ written) : isWordChar c = true :=
  isWordChar_of_isLower (isLower_of_get? (get?_of_isWritten writes) c member)

theorem ne_nil_of_isWritten {word : Spoken} {written : List Char}
    (writes : word.IsWritten written) : written ≠ [] := by
  rintro rfl
  have found := get?_of_isWritten writes
  simp at found

/-- A key that goes on after a word would reach over the gap that comes there. -/
theorem get?_take_eq_none {written rest : List Char} (apart : ∀ c ∈ rest.head?, isWordGap c = true)
    {longer : Nat} (exceeds : written.length < longer) (fits : longer ≤ (written ++ rest).length) :
    vocabulary.get? ((written ++ rest).take longer) = none := by
  cases rest with
  | nil =>
    rw [List.append_nil] at fits
    omega
  | cons c rest =>
    apply get?_eq_none_of_mem (apart c rfl)
    obtain ⟨more, rfl⟩ := Nat.exists_eq_add_of_lt exceeds
    rw [Nat.add_assoc, List.take_length_add_append, List.take_succ_cons]
    simp

/-- A word starts where no word character comes before it. -/
theorem isWordEdge_start {written rest : List Char} (letters : ∀ c ∈ written, isWordChar c = true)
    (nonempty : written ≠ []) {before : Option Char} (outside : before.any isWordChar = false) :
    isWordEdge before (written ++ rest).head? = true := by
  obtain ⟨first, others, rfl⟩ := List.exists_cons_of_ne_nil nonempty
  have letter := letters first (List.mem_cons_self ..)
  simp [isWordEdge, outside, letter]

/-- A word ends where a gap or the end of the text comes after it. -/
theorem isWordEdge_end {written rest : List Char} (letters : ∀ c ∈ written, isWordChar c = true)
    (nonempty : written ≠ []) (apart : ∀ c ∈ rest.head?, isWordGap c = true) :
    isWordEdge written.getLast? rest.head? = true := by
  have letter := letters _ (List.getLast_mem nonempty)
  have free : rest.head?.any isWordChar = false := by
    cases rest with
    | nil => rfl
    | cons c rest => exact not_isWordChar_of_isWordGap (apart c rfl)
  rw [isWordEdge, free, List.getLast?_eq_some_getLast nonempty]
  simp [letter]

/-- A written word that no word character touches is found as a whole. -/
theorem english_word {word : Spoken} {written rest : List Char} (writes : word.IsWritten written)
    {before : Option Char} (outside : before.any isWordChar = false)
    (apart : ∀ c ∈ rest.head?, isWordGap c = true) (previous : Option Token) :
    Lexeme.english vocabulary before previous (written ++ rest) =
      .token written.length word.token := by
  have nonempty := ne_nil_of_isWritten writes
  have letters : ∀ c ∈ written, isWordChar c = true := fun _ => isWordChar_of_mem writes
  have found : vocabulary.longestWhere? (fun length =>
      isWordEdge before (written ++ rest).head? &&
        isWordEdge ((written ++ rest).take length).getLast? ((written ++ rest).drop length).head?)
      (written ++ rest) = some (written.length, word.token) := by
    apply Trie.longestWhere?_eq_some
    · simp
    · rw [List.take_left]
      exact get?_of_isWritten writes
    · rw [List.take_left, List.drop_left, isWordEdge_start letters nonempty outside,
        isWordEdge_end letters nonempty apart]
      rfl
    · exact fun longer => get?_take_eq_none apart
  simp only [Lexeme.english]
  rw [found]

/-- Gaps are passed over, whatever has been read. -/
theorem english_gap {c : Char} (gap : isWordGap c = true) (before : Option Char)
    (previous : Option Token) (rest : List Char) :
    Lexeme.english vocabulary before previous (c :: rest) = .gap := by
  have nothing (accepts : Nat → Bool) : vocabulary.longestWhere? accepts (c :: rest) = none := by
    apply Trie.longestWhere?_eq_none
    intro length _
    cases length with
    | zero => rw [List.take_zero, Trie.get?_nil]
    | succ length => exact get?_eq_none_of_mem gap (by simp)
  simp only [Lexeme.english]
  rw [nothing, List.takeWhile_cons_of_neg (by simp [not_isDecimal_of_isWordGap gap])]
  rw [isWordGap] at gap
  simp [gap]

variable {spoken : List Spoken} {text : List Char}

theorem scan_gaps {gaps : List Char} (all : gaps.all isWordGap = true) (before : Option Char)
    (previous : Option Token) (rest : List Char) :
    Lexeme.scan (Lexeme.english vocabulary) before previous (gaps ++ rest) =
      Lexeme.scan (Lexeme.english vocabulary) (gaps.getLast?.or before) previous rest := by
  induction gaps generalizing before with
  | nil => rfl
  | cons c gaps ih =>
    rw [List.all_cons, Bool.and_eq_true] at all
    have last : (c :: gaps).getLast?.or before = gaps.getLast?.or (some c) := by
      rw [List.getLast?_cons]
      cases gaps.getLast? <;> rfl
    rw [List.cons_append,
      Lexeme.scan_cons_of_gap (english_gap all.1 before previous _), ih all.2, last]

/-- The words of a spelling are found one after another. -/
theorem scan_of_isSpelling (spelled : IsSpelling spoken text) (before : Option Char)
    (previous : Option Token) (outside : before.any isWordChar = false) :
    Lexeme.scan (Lexeme.english vocabulary) before previous (text.map Char.toLower) =
      some (spoken.map Spoken.token) := by
  induction spelled generalizing before previous with
  | last text writes =>
    have apart : ∀ c ∈ ([] : List Char).head?, isWordGap c = true := by simp
    have scanned := Lexeme.scan_append_of_token (ne_nil_of_isWritten writes)
      (english_word writes outside apart previous)
    rw [List.append_nil] at scanned
    rw [scanned, Lexeme.scan]
    rfl
  | @cons word rest others text gap writes nonempty all _ ih =>
    obtain ⟨c, more, rfl⟩ := List.exists_cons_of_ne_nil nonempty
    have apart : ∀ d ∈ (c :: more ++ others.map Char.toLower).head?, isWordGap d = true := by
      rintro d ⟨⟩
      exact List.all_eq_true.1 all c (List.mem_cons_self ..)
    -- The word before a gap ends there, so that the next one may begin after it.
    have beyond : ((c :: more).getLast?.or (text.map Char.toLower).getLast?).any isWordChar =
        false := by
      rw [List.getLast?_eq_some_getLast nonempty]
      exact not_isWordChar_of_isWordGap
        (List.all_eq_true.1 all _ (List.getLast_mem nonempty))
    rw [List.map_append, List.map_append, map_toLower_of_isWordGap all, List.append_assoc,
      Lexeme.scan_append_of_token (ne_nil_of_isWritten writes)
        (english_word writes outside apart previous),
      scan_gaps all, ih _ _ beyond]
    rfl

theorem simple_of_isSpelling (spelled : IsSpelling spoken text) :
    ∀ c ∈ text, c ≠ 'Σ' ∧ lowerChar c = [c.toLower] := by
  have lettered {word : Spoken} {text : List Char} (writes : word.IsWritten (text.map Char.toLower))
      (c : Char) (member : c ∈ text) : c ≠ 'Σ' ∧ lowerChar c = [c.toLower] :=
    lowerChar_of_isLower_toLower
      (isLower_of_get? (get?_of_isWritten writes) _ (List.mem_map_of_mem member))
  induction spelled with
  | last text writes => exact lettered writes
  | cons text gap writes _ all _ ih =>
    intro c member
    rcases List.mem_append.1 member with front | back
    · rcases List.mem_append.1 front with word | gap
      · exact lettered writes c word
      · exact lowerChar_of_isCaseless_toLower
          (isCaseless_of_isWordGap (List.all_eq_true.1 all c gap))
    · exact ih c back

theorem ne_nil_of_isSpelling (spelled : IsSpelling spoken text) : spoken ≠ [] := by
  cases spelled <;> simp

theorem tokenize_of_isSpelling (spelled : IsSpelling spoken text) :
    Scheme.english.tokenize vocabulary text = some (spoken.map Spoken.token) := by
  have scanned := scan_of_isSpelling spelled none none rfl
  have nonempty : (spoken.map Spoken.token).isEmpty = false := by
    simp [ne_nil_of_isSpelling spelled]
  rw [Scheme.tokenize, Lexeme.tokens?, lower_eq_map_toLower (simple_of_isSpelling spelled),
    scanned, Option.filter_some, nonempty]
  rfl

/-- A number below 10^15 that is spelled in words is read as its decimal digits,
unless tens meet: "ten million ten" has more than one reading. -/
theorem reads_of_isSpelling {n : Nat} (small : n < 10 ^ 15) (linked : Linked (numeral n) spoken)
    (spelled : IsSpelling spoken text) :
    (¬TensMeet spoken → Scheme.english.reader.read? text = some (Nat.toDigits 10 n)) ∧
      (TensMeet spoken → Scheme.english.reader.read? text = none) := by
  have read : Scheme.english.reader.read? text =
      Scheme.english.evaluate .word64 (spoken.map Spoken.token) := by
    have tokens := tokenize_of_isSpelling spelled
    rw [show Scheme.english.reader.read? text = (Scheme.english.tokenize vocabulary text).bind
      (Scheme.english.evaluate .word64) from rfl, tokens, Option.bind_some]
  rw [read, evaluate_token small linked]
  constructor
  · intro apart
    rw [if_neg fun again => apart (repeatsTen_token_iff.1 again)]
  · intro meet
    rw [if_pos (repeatsTen_token_iff.2 meet)]

/-- Tens that stand apart are read, and tens that meet are not. -/
theorem reads_two_million :
    Scheme.english.reader.read? "two Million, TEN thousand and forty-two".toList =
        some "2010042".toList ∧
      Scheme.english.reader.read? "ten million ten".toList = none := by
  have apart : IsSpelling
      [.number 2, .number 1000000, .number 10, .number 1000, .link, .number 40, .number 2] _ :=
    .cons "two".toList " ".toList (by decide +kernel) (by decide) (by decide +kernel) <|
    .cons "Million".toList ", ".toList (by decide +kernel) (by decide) (by decide +kernel) <|
    .cons "TEN".toList " ".toList (by decide +kernel) (by decide) (by decide +kernel) <|
    .cons "thousand".toList " ".toList (by decide +kernel) (by decide) (by decide +kernel) <|
    .cons "and".toList " ".toList (by decide +kernel) (by decide) (by decide +kernel) <|
    .cons "forty".toList "-".toList (by decide +kernel) (by decide) (by decide +kernel) <|
    .last "two".toList (by decide +kernel)
  have meet : IsSpelling [.number 10, .number 1000000, .number 10] _ :=
    .cons "ten".toList " ".toList (by decide +kernel) (by decide) (by decide +kernel) <|
    .cons "million".toList " ".toList (by decide +kernel) (by decide) (by decide +kernel) <|
    .last "ten".toList (by decide +kernel)
  have linked : Linked (numeral 2010042)
      [.number 2, .number 1000000, .number 10, .number 1000, .link, .number 40, .number 2] :=
    .word 2 <| .word 1000000 <| .word 10 <| .link (by decide) (by decide) <| .word 40 <|
      .word 2 .nil
  have unlinked : Linked (numeral 10000010) [.number 10, .number 1000000, .number 10] :=
    .word 10 <| .word 1000000 <| .word 10 .nil
  constructor
  · exact (reads_of_isSpelling (by decide) linked apart).1 (by decide)
  · exact (reads_of_isSpelling (by decide) unlinked meet).2 (by decide)

theorem mem_names_of_mem_belowThousand {n value : Nat} (small : n < 1000)
    (member : value ∈ belowThousand n) : value ∈ names.map Prod.fst := by
  have units : ∀ m < 100, ∀ value ∈ belowHundred m, value ∈ names.map Prod.fst := by
    decide +kernel
  have digits : ∀ digit < 10, digit ∈ names.map Prod.fst := by decide
  rcases List.mem_append.1 member with hundreds | rest
  · split at hundreds
    · simp at hundreds
    · rw [List.mem_cons, List.mem_singleton] at hundreds
      rcases hundreds with rfl | rfl
      · exact digits _ (by omega)
      · decide
  · exact units _ (by omega) value rest

theorem mem_names_of_mem_sections {power n value : Nat} (high : power ≤ 4)
    (small : n < 1000 ^ (power + 1)) (member : value ∈ sections power n) :
    value ∈ names.map Prod.fst := by
  induction power generalizing n with
  | zero => exact mem_names_of_mem_belowThousand small member
  | succ power ih =>
    have scales : ∀ power < 4, 1000 ^ (power + 1) ∈ names.map Prod.fst := by decide
    rcases List.mem_append.1 member with first | others
    · split at first
      · simp at first
      · rcases List.mem_append.1 first with counted | scale
        · have count : n / 1000 ^ (power + 1) < 1000 :=
            Nat.div_lt_of_lt_mul (by rwa [← Nat.pow_succ])
          exact mem_names_of_mem_belowThousand count counted
        · rw [List.mem_singleton.1 scale]
          exact scales power (by omega)
    · exact ih (by omega) (Nat.mod_lt n (Nat.pow_pos (by decide))) others

theorem linked_map_number (values : List Nat) : Linked values (values.map Spoken.number) := by
  induction values with
  | nil => exact .nil
  | cons value values ih => exact .word value ih

theorem exists_isSpelling_map {values : List Nat} (nonempty : values ≠ [])
    (named : ∀ value ∈ values, value ∈ names.map Prod.fst) :
    ∃ text, IsSpelling (values.map Spoken.number) text := by
  have plain : ∀ entry ∈ names,
      (Spoken.number entry.1).IsWritten (entry.2.toList.map Char.toLower) := by
    decide +kernel
  induction values with
  | nil => exact absurd rfl nonempty
  | cons value values ih =>
    obtain ⟨⟨_, name⟩, listed, rfl⟩ := List.mem_map.1 (named _ (List.mem_cons_self ..))
    have writes := plain _ listed
    cases values with
    | nil => exact ⟨_, .last name.toList writes⟩
    | cons next others =>
      obtain ⟨text, spelled⟩ := ih (by simp) fun word member =>
        named word (List.mem_cons_of_mem _ member)
      exact ⟨_, .cons name.toList [' '] writes (by simp) (by decide +kernel) spelled⟩

/-- Every number below 10^15 can be spelled. -/
theorem exists_isSpelling {n : Nat} (small : n < 10 ^ 15) :
    ∃ spoken text, Linked (numeral n) spoken ∧ IsSpelling spoken text := by
  have named : ∀ value ∈ numeral n, value ∈ names.map Prod.fst := by
    intro value member
    unfold numeral at member
    split at member
    · rw [List.mem_singleton.1 member]
      decide
    · exact mem_names_of_mem_sections (Nat.le_refl 4) small member
  obtain ⟨text, spelled⟩ := exists_isSpelling_map (numeral_ne_nil n small) named
  exact ⟨_, text, linked_map_number _, spelled⟩

end Numeral.English

end Phrasebook
