import Phrasebook.Numeral.Registry
import Phrasebook.Proofs.NormalText
import Phrasebook.Proofs.Scanning
import Phrasebook.Proofs.SpanishNumerals
import Phrasebook.Proofs.Vocabulary

/-! Spanish numerals in a text.

The words may be written in capitals, and between two words stands at least one
blank, hyphen or comma. The text is split there, and each word is looked up as a
whole.
-/

set_option autoImplicit false

namespace Phrasebook

open Text

namespace Numeral.Spanish

/-- A text of some words, in any capitals, with gaps between them. -/
inductive IsSpelling : List (List Char) → List Char → Prop where
  | last {word : List Char} (text : List Char) : text.flatMap lowerChar = word →
      IsSpelling [word] text
  | cons {word : List Char} {rest : List (List Char)} {others : List Char}
      (text gap : List Char) : text.flatMap lowerChar = word → gap ≠ [] →
      gap.all isWordGap = true → IsSpelling rest others →
      IsSpelling (word :: rest) (text ++ gap ++ others)

/-- The word for ten comes again within the next two words. -/
def TensMeet (words : List Entry) : Prop :=
  ∃ first second, first < second ∧ second ≤ first + 2 ∧
    words[first]? = some (.number "diez" 10) ∧ words[second]? = some (.number "diez" 10)

abbrev vocabulary : Trie Char Token := Lexicon.spanish.vocabulary

/-- The words of all numerals. -/
def names : List Entry :=
  (List.range 30).map (simple false) ++ (List.range 30).map (simple true) ++
    (List.range 10).map tens ++ (List.range 10).map hundreds ++
    [.connector "y", .number "cien" 100, .number "mil" 1000, .number "millón" 1000000,
      .number "millones" 1000000]

/-- The letters of the names. -/
def isLetter (c : Char) : Bool := c.isLower || ['é', 'ó', 'ú'].contains c

theorem lowerChar_of_isLetter {c : Char} (letter : isLetter c = true) : lowerChar c = [c] := by
  rw [isLetter, Bool.or_eq_true, List.contains_iff_mem] at letter
  rcases letter with lower | accented
  · have bounds := bounds_of_isLower lower
    rw [lowerChar_of_ascii (by omega), toLower_of_not_capital (by omega)]
  · have checked : (['é', 'ó', 'ú'].all fun c => lowerChar c == [c]) = true := by decide +kernel
    exact eq_of_beq (List.all_eq_true.1 checked c accented)

theorem of_isLetter {c : Char} (letter : isLetter c = true) :
    isWordGap c = false ∧ Token.isDigit c = false ∧ c ≠ 'σ' := by
  rw [isLetter, Bool.or_eq_true, List.contains_iff_mem] at letter
  rcases letter with lower | accented
  · have checked : ∀ point < 0x7B, 0x61 ≤ point →
        isWordGap (Char.ofNat point) = false ∧ Token.isDigit (Char.ofNat point) = false ∧
          Char.ofNat point ≠ 'σ' := by
      decide +kernel
    have bounds := bounds_of_isLower lower
    have known := checked c.toNat (by omega) bounds.1
    rwa [Char.ofNat_toNat] at known
  · have checked : (['é', 'ó', 'ú'].all fun c =>
        !isWordGap c && !Token.isDigit c && c != 'σ') = true := by
      decide +kernel
    simpa [and_assoc] using List.all_eq_true.1 checked c accented

/-- Each name is stored with its token, is made of letters, and stands for ten only if it is
`diez`. -/
theorem names_checked : names.all (fun entry =>
    decide (vocabulary.get? entry.word = some entry.token) && !entry.word.isEmpty &&
      entry.word.all isLetter &&
      (!Scheme.isTen entry.token || decide (entry = .number "diez" 10))) = true := by
  -- The strings become characters first, which is slow when it is left to the kernel.
  simp only [vocabulary, Lexicon.vocabulary, Lexicon.spanish, Lexicon.ofWords, Entry.number,
    Entry.connector, String.reduceToList, List.map_cons, List.map_nil, List.cons_append,
    List.nil_append]
  decide +kernel

section

variable {entry : Entry} (listed : entry ∈ names)

include listed

theorem get?_of_mem_names : vocabulary.get? entry.word = some entry.token := by
  have checked := List.all_eq_true.1 names_checked entry listed
  simp only [Bool.and_eq_true, decide_eq_true_eq] at checked
  exact checked.1.1.1

theorem ne_nil_of_mem_names : entry.word ≠ [] := by
  have checked := List.all_eq_true.1 names_checked entry listed
  simp only [Bool.and_eq_true] at checked
  simpa using checked.1.1.2

theorem isLetter_of_mem_names : ∀ c ∈ entry.word, isLetter c = true := by
  have checked := List.all_eq_true.1 names_checked entry listed
  simp only [Bool.and_eq_true] at checked
  exact List.all_eq_true.1 checked.1.2

theorem isTen_iff_of_mem_names : Scheme.isTen entry.token = true ↔ entry = .number "diez" 10 := by
  have checked := List.all_eq_true.1 names_checked entry listed
  simp only [Bool.and_eq_true, Bool.or_eq_true, decide_eq_true_eq] at checked
  constructor
  · intro ten
    simpa [ten] using checked.2
  · rintro rfl
    decide

end

theorem simple_mem_names (short : Bool) {n : Nat} (small : n < 30) : simple short n ∈ names := by
  have listed : simple short n ∈ (List.range 30).map (simple short) :=
    List.mem_map_of_mem (List.mem_range.2 small)
  cases short <;> simp [names, listed]

theorem tens_mem_names {digit : Nat} (small : digit < 10) : tens digit ∈ names := by
  have listed : tens digit ∈ (List.range 10).map tens :=
    List.mem_map_of_mem (List.mem_range.2 small)
  simp [names, listed]

theorem hundreds_mem_names {digit : Nat} (small : digit < 10) : hundreds digit ∈ names := by
  have listed : hundreds digit ∈ (List.range 10).map hundreds :=
    List.mem_map_of_mem (List.mem_range.2 small)
  simp [names, listed]

theorem belowHundred_subset (short : Bool) {n : Nat} (small : n < 100) :
    belowHundred short n ⊆ names := by
  unfold belowHundred
  split
  · exact List.nil_subset _
  · split
    · next low => exact List.cons_subset.2 ⟨simple_mem_names short low, List.nil_subset _⟩
    · refine List.cons_subset.2 ⟨tens_mem_names (by omega), ?_⟩
      split
      · exact List.nil_subset _
      · refine List.cons_subset.2 ⟨by simp [names], List.cons_subset.2 ⟨?_, List.nil_subset _⟩⟩
        exact simple_mem_names short (by omega)

theorem belowThousand_subset (short : Bool) {n : Nat} (small : n < 1000) :
    belowThousand short n ⊆ names := by
  unfold belowThousand
  split
  · simp [names]
  · refine List.append_subset.2 ⟨?_, belowHundred_subset short (by omega)⟩
    split
    · exact List.nil_subset _
    · exact List.cons_subset.2 ⟨hundreds_mem_names (by omega), List.nil_subset _⟩

theorem thousands_subset {count : Nat} (small : count < 1000) : thousands count ⊆ names := by
  unfold thousands
  split
  · exact List.nil_subset _
  · refine List.append_subset.2 ⟨?_, by simp [names]⟩
    split
    · exact List.nil_subset _
    · exact belowThousand_subset true small

theorem millions_subset {count : Nat} (small : count < 1000) : millions count ⊆ names := by
  unfold millions
  split
  · exact List.nil_subset _
  · refine List.append_subset.2 ⟨belowThousand_subset true small, ?_⟩
    split <;> simp [names]

theorem numeral_subset {n : Nat} (small : n < 10 ^ 9) : numeral n ⊆ names := by
  unfold numeral
  split
  · exact List.cons_subset.2 ⟨simple_mem_names false (by decide), List.nil_subset _⟩
  · exact List.append_subset.2 ⟨List.append_subset.2 ⟨millions_subset (by omega),
      thousands_subset (by omega)⟩, belowThousand_subset false (by omega)⟩

theorem numeral_ne_nil {n : Nat} (small : n < 10 ^ 9) : numeral n ≠ [] := by
  intro nothing
  have reads := exists_read_numeral Capacity.holdsBelow_word64 small
    (Nat.lt_trans small (by decide))
  -- Only zero could be read from no words, and it has one.
  rw [nothing] at reads
  simp [Western.eq_zero_of_read_nil reads, numeral] at nothing

variable {words : List Entry} {text : List Char}

instance : Decidable (TensMeet words) :=
  decidable_of_iff
    (∃ first < words.length, ∃ second < words.length, first < second ∧ second ≤ first + 2 ∧
      words[first]? = some (.number "diez" 10) ∧ words[second]? = some (.number "diez" 10))
    ⟨fun ⟨first, _, second, _, meet⟩ => ⟨first, second, meet⟩,
      fun ⟨first, second, less, near, ten, again⟩ =>
        ⟨first, (List.getElem?_eq_some_iff.1 ten).1, second, (List.getElem?_eq_some_iff.1 again).1,
          less, near, ten, again⟩⟩

theorem repeatsTen_iff (listed : words ⊆ names) :
    Scheme.repeatsTen (tokens words) = true ↔ TensMeet words :=
  Scheme.repeatsTen_map_iff fun _ member => isTen_iff_of_mem_names (listed member)

theorem isSpanishGap_eq (c : Char) : Scheme.isSpanishGap c = isWordGap c := by
  rw [Scheme.isSpanishGap, isWordGap, Bool.or_assoc, Bool.or_assoc, Bool.or_comm (c == ',')]

theorem sigma_not_mem {written : List Char} (lowered : 'σ' ∉ written.flatMap lowerChar) :
    'Σ' ∉ written := fun member =>
  lowered (List.mem_flatMap.2 ⟨'Σ', member, by simp [lowerChar_sigma]⟩)

/-- Words that are split at gaps and looked up. -/
theorem words_of_isSpelling {parts : List (List Char)} (spelled : IsSpelling parts text)
    (whole : ∀ part ∈ parts, part ≠ [] ∧ ∀ c ∈ part, isLetter c = true) :
    Text.words Scheme.isSpanishGap (lower text) = parts := by
  have split : 'Σ' ∉ text ∧ Text.words isWordGap (text.flatMap lowerChar) = parts := by
    induction spelled with
    | last text writes =>
      obtain ⟨nonempty, letters⟩ := whole _ (List.mem_singleton_self _)
      refine ⟨sigma_not_mem ?_, ?_⟩
      · rw [writes]
        exact fun sigma => absurd (letters _ sigma) (by decide)
      · rw [writes]
        exact words_of_solid nonempty fun c member => (of_isLetter (letters c member)).1
    | cons text gap writes apart all _ ih =>
      obtain ⟨nonempty, letters⟩ := whole _ (List.mem_cons_self ..)
      obtain ⟨plain, further⟩ := ih fun part member => whole part (List.mem_cons_of_mem _ member)
      have gapless : 'Σ' ∉ gap := fun member =>
        absurd (List.all_eq_true.1 all _ member) (by decide)
      have lowered : gap.flatMap lowerChar = gap := flatMap_lowerChar_of_lowered fun c member =>
        lowerChar_of_isCaseless (isCaseless_of_isWordGap (List.all_eq_true.1 all c member))
      have start : 'Σ' ∉ text := by
        apply sigma_not_mem
        rw [writes]
        exact fun sigma => absurd (letters _ sigma) (by decide)
      refine ⟨by simp [start, gapless, plain], ?_⟩
      rw [List.flatMap_append, List.flatMap_append, writes, lowered, words_append nonempty (fun c member => (of_isLetter (letters c member)).1) apart
          (List.all_eq_true.1 all), further]
  rw [lower_eq_flatMap split.1, funext isSpanishGap_eq, split.2]

theorem tokenize_of_isSpelling (listed : words ⊆ names) (nonempty : words ≠ [])
    (spelled : IsSpelling (words.map Entry.word) text) :
    Scheme.spanish.tokenize vocabulary text = some (tokens words) := by
  have whole : ∀ part ∈ words.map Entry.word, part ≠ [] ∧ ∀ c ∈ part, isLetter c = true := by
    intro part member
    obtain ⟨entry, inside, rfl⟩ := List.mem_map.1 member
    have known := listed inside
    exact ⟨ne_nil_of_mem_names known, isLetter_of_mem_names known⟩
  have found : ∀ entry ∈ words, Scheme.wordToken? vocabulary entry.word = some entry.token := by
    intro entry member
    have known := listed member
    obtain ⟨first, others, eq⟩ := List.exists_cons_of_ne_nil (ne_nil_of_mem_names known)
    have letter : Token.isDigit first = false :=
      (of_isLetter (isLetter_of_mem_names known first (eq ▸ List.mem_cons_self ..))).2.1
    have spoken : ¬entry.word.all Token.isDigit = true := by simp [eq, letter]
    rw [Scheme.wordToken?, if_neg spoken, get?_of_mem_names known]
  have looked : (words.map Entry.word).mapM (Scheme.wordToken? vocabulary) =
      some (tokens words) := by
    clear whole spelled nonempty listed
    induction words with
    | nil => rfl
    | cons entry words ih =>
      rw [List.map_cons, List.mapM_cons, found entry (List.mem_cons_self ..),
        ih fun other member => found other (List.mem_cons_of_mem _ member)]
      rfl
  have filled : (tokens words).isEmpty = false := by simp [nonempty]
  rw [Scheme.tokenize, words_of_isSpelling spelled whole, looked, Option.filter_some, filled]
  rfl

/-- The words of a numeral are one number, unless tens meet. -/
theorem evaluate_numeral {n : Nat} (small : n < 10 ^ 9) :
    Scheme.spanish.evaluate .word64 (tokens (numeral n)) =
      if TensMeet (numeral n) then none else some (Nat.toDigits 10 n) := by
  have fits : n < UInt64.size := Nat.lt_trans small (by decide)
  obtain ⟨next, step, sum⟩ := exists_read_numeral Capacity.holdsBelow_word64 small fits
  have worded : ∀ token ∈ tokens (numeral n), token.kind ≠ .explicit := by
    have checked : names.all (fun entry => decide (entry.token.kind ≠ .explicit)) = true := by
      decide +kernel
    intro token member
    obtain ⟨entry, inside, rfl⟩ := List.mem_map.1 member
    simpa using List.all_eq_true.1 checked entry (numeral_subset small inside)
  have nonempty : tokens (numeral n) ≠ [] := by simp [numeral_ne_nil small]
  rw [Western.evaluate_of_read rfl rfl step sum fits worded nonempty]
  simp only [repeatsTen_iff (numeral_subset small)]

/-- The numeral of a number below 10^9, with any gaps between its words, is read as its decimal
digits, unless tens meet: "diez mil diez" has more than one reading. -/
theorem reads_numeral_of_isSpelling {n : Nat} (small : n < 10 ^ 9)
    (spelled : IsSpelling ((numeral n).map Entry.word) text) :
    Scheme.spanish.reader.tokenize text = some (tokens (numeral n)) ∧
      (¬TensMeet (numeral n) → Scheme.spanish.reader.read? text = some (Nat.toDigits 10 n)) ∧
      (TensMeet (numeral n) → Scheme.spanish.reader.read? text = none) := by
  have split := tokenize_of_isSpelling (numeral_subset small) (numeral_ne_nil small) spelled
  have read : Scheme.spanish.reader.read? text =
      Scheme.spanish.evaluate .word64 (tokens (numeral n)) := by
    rw [show Scheme.spanish.reader.read? text = (Scheme.spanish.tokenize vocabulary text).bind
      (Scheme.spanish.evaluate .word64) from rfl, split, Option.bind_some]
  rw [read, evaluate_numeral small]
  exact ⟨split, fun apart => if_neg apart, fun meet => if_pos meet⟩

/-- Capitals and any gaps, and tens that meet. -/
theorem reads_twenty_one_million :
    Scheme.spanish.reader.read? "VEINTIÚN millones, Trescientos treinta y un mil-dieciséis".toList =
        some "21331016".toList ∧
      Scheme.spanish.reader.read? "diez mil diez".toList = none := by
  have apart : IsSpelling ((numeral 21331016).map Entry.word)
      "VEINTIÚN millones, Trescientos treinta y un mil-dieciséis".toList := by
    have words : (numeral 21331016).map Entry.word = ["veintiún".toList, "millones".toList,
        "trescientos".toList, "treinta".toList, "y".toList, "un".toList, "mil".toList,
        "dieciséis".toList] := by
      decide +kernel
    have pieces : "VEINTIÚN millones, Trescientos treinta y un mil-dieciséis".toList =
        "VEINTIÚN".toList ++ " ".toList ++ ("millones".toList ++ ", ".toList ++
          ("Trescientos".toList ++ " ".toList ++ ("treinta".toList ++ " ".toList ++
            ("y".toList ++ " ".toList ++ ("un".toList ++ " ".toList ++
              ("mil".toList ++ "-".toList ++ "dieciséis".toList)))))) := by
      simp only [String.reduceToList, List.cons_append, List.nil_append]
    rw [words, pieces]
    exact .cons "VEINTIÚN".toList " ".toList (by decide +kernel) (by decide) (by decide +kernel) <|
      .cons "millones".toList ", ".toList (by decide +kernel) (by decide) (by decide +kernel) <|
      .cons "Trescientos".toList " ".toList (by decide +kernel) (by decide) (by decide +kernel) <|
      .cons "treinta".toList " ".toList (by decide +kernel) (by decide) (by decide +kernel) <|
      .cons "y".toList " ".toList (by decide +kernel) (by decide) (by decide +kernel) <|
      .cons "un".toList " ".toList (by decide +kernel) (by decide) (by decide +kernel) <|
      .cons "mil".toList "-".toList (by decide +kernel) (by decide) (by decide +kernel) <|
      .last "dieciséis".toList (by decide +kernel)
  have meet : IsSpelling ((numeral 10010).map Entry.word) "diez mil diez".toList := by
    rw [show (numeral 10010).map Entry.word = ["diez".toList, "mil".toList, "diez".toList] by
      decide +kernel]
    exact .cons "diez".toList " ".toList (by decide +kernel) (by decide) (by decide +kernel) <|
      .cons "mil".toList " ".toList (by decide +kernel) (by decide) (by decide +kernel) <|
      .last "diez".toList (by decide +kernel)
  constructor
  · exact (reads_numeral_of_isSpelling (by decide) apart).2.1 (by decide +kernel)
  · exact (reads_numeral_of_isSpelling (by decide) meet).2.2 (by decide +kernel)

/-- Words that are written in lowercase letters with single spaces between them. -/
theorem isSpelling_intercalate (listed : words ⊆ names) (nonempty : words ≠ []) :
    IsSpelling (words.map Entry.word) ([' '].intercalate (words.map Entry.word)) := by
  induction words with
  | nil => exact absurd rfl nonempty
  | cons entry words ih =>
    have written : entry.word.flatMap lowerChar = entry.word :=
      flatMap_lowerChar_of_lowered fun c member =>
        lowerChar_of_isLetter (isLetter_of_mem_names (listed (List.mem_cons_self ..)) c member)
    cases words with
    | nil => simpa using IsSpelling.last entry.word written
    | cons next others =>
      have further := ih (fun _ other => listed (.tail _ other)) (List.cons_ne_nil _ _)
      simpa [List.intercalate_cons_cons] using
        IsSpelling.cons entry.word [' '] written (by simp) (by decide) further

/-- The numeral of a number below 10^9 is a text of its words. -/
theorem isSpelling_numeral {n : Nat} (small : n < 10 ^ 9) :
    IsSpelling ((numeral n).map Entry.word) ([' '].intercalate ((numeral n).map Entry.word)) :=
  isSpelling_intercalate (numeral_subset small) (numeral_ne_nil small)

end Numeral.Spanish

end Phrasebook
