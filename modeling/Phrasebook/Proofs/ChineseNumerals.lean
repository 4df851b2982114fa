import Phrasebook.Numeral.Registry
import Phrasebook.Proofs.CharacterNumerals
import Phrasebook.Proofs.Scanning
import Phrasebook.Proofs.Vocabulary

/-! Chinese numerals in number characters.

A zero marks the positions that are passed over. It comes right after a multiplier
there, so that it is a linking word and not a digit. A unit that is said right after
the last multiplier of a numeral stands for the next lower position.
-/

set_option autoImplicit false

namespace Phrasebook.Numeral.Chinese

def style : Style where
  omitsOne exponent := exponent == 1
  marksGaps := true

def characters : List (Word × Char) :=
  [(.zero, '零'), (.zero, '〇'), (.digit 1, '一'), (.digit 2, '二'), (.digit 2, '两'),
    (.digit 3, '三'), (.digit 4, '四'), (.digit 5, '五'), (.digit 6, '六'), (.digit 7, '七'),
    (.digit 8, '八'), (.digit 9, '九'), (.multiplier 1, '十'), (.multiplier 2, '百'),
    (.multiplier 3, '千'), (.multiplier 4, '万'), (.multiplier 8, '亿'), (.multiplier 12, '兆')]

/-- A text of some words, side by side. -/
inductive IsWritten : List Word → List Char → Prop where
  | nil : IsWritten [] []
  | cons {word : Word} {c : Char} {words : List Word} {text : List Char} :
      (word, c) ∈ characters → IsWritten words text → IsWritten (word :: words) (c :: text)

abbrev vocabulary : Trie Char Token := Lexicon.chinese.vocabulary

theorem get?_of_mem_characters :
    ∀ entry ∈ characters, vocabulary.get? [entry.2] = some (.number entry.1.value) := by
  decide +kernel

/-- No entry goes on after a character. -/
theorem meets_of_mem_characters :
    ∀ entry ∈ characters, (vocabulary.descend [entry.2]).meets [] = false := by
  decide +kernel

/-- The token of a word, given the one before it: a zero links right after a power of ten. -/
def tokenAfter (previous : Option Token) (word : Word) : Token :=
  if word = .zero ∧ previous.any (Token.isPowerFrom 10) = true then .connector
  else .number word.value

theorem isZero_of_mem_characters :
    ∀ entry ∈ characters, entry.2 ∈ Lexeme.chineseZeros ↔ entry.1 = .zero := by
  decide +kernel

theorem chinese_character {word : Word} {c : Char} (listed : (word, c) ∈ characters)
    (before : Option Char) (previous : Option Token) (rest : List Char) :
    Lexeme.chinese vocabulary before previous (c :: rest) =
      .token 1 (tokenAfter previous word) := by
  have found : vocabulary.longest? (c :: rest) = some (1, .number word.value) := by
    rw [← List.singleton_append, Trie.longest?_eq_longestWhere?]
    exact Trie.longestWhere?_append (get?_of_mem_characters _ listed) rfl
      (.inr ⟨[], List.nil_prefix, meets_of_mem_characters _ listed⟩)
  have links := isZero_of_mem_characters _ listed
  simp only at links
  simp [Lexeme.chinese, found, links, tokenAfter]

/-- Whether a word is a multiplier. -/
def isMultiplier : Word → Bool
  | .multiplier _ => true
  | _ => false

theorem isPowerFrom_of_mem_characters : ∀ entry ∈ characters,
    entry.1.token.isPowerFrom 10 = isMultiplier entry.1 := by
  decide +kernel

/-- Every zero comes right after a multiplier; `after` tells whether the words do. -/
def Links : Bool → List Word → Prop
  | _, [] => True
  | _, .digit _ :: rest => Links false rest
  | _, .multiplier _ :: rest => Links true rest
  | after, .zero :: rest => after = true ∧ Links false rest

theorem scan_of_isWritten {words : List Word} {text : List Char} (written : IsWritten words text)
    {previous : Option Token} (links : Links (previous.any (Token.isPowerFrom 10)) words)
    (before : Option Char) :
    Lexeme.scan (Lexeme.chinese vocabulary) before previous text =
      some (words.map Word.token) := by
  induction written generalizing before previous with
  | nil =>
    rw [Lexeme.scan]
    rfl
  | @cons word c words text listed _ ih =>
    -- `Links` keeps of the token before only whether it is a multiplier, as the scanner does.
    have power := isPowerFrom_of_mem_characters _ listed
    have step := Lexeme.scan_append_of_token (List.cons_ne_nil c [])
      (chinese_character listed before previous text)
    rw [List.singleton_append] at step
    cases word with
    | digit value =>
      rw [step, show tokenAfter previous (.digit value) = (Word.digit value).token from rfl,
        ih (by rw [Option.any_some, power]; exact links)]
      rfl
    | multiplier exponent =>
      rw [step, show tokenAfter previous (.multiplier exponent) =
        (Word.multiplier exponent).token from rfl, ih (by rw [Option.any_some, power]; exact links)]
      rfl
    | zero =>
      rw [step, show tokenAfter previous .zero = Word.zero.token from if_pos ⟨rfl, links.1⟩,
        ih (by rw [Option.any_some, power]; exact links.2)]
      rfl

theorem links_of_ne_zero {words : List Word} (plain : ∀ word ∈ words, word ≠ .zero) (after : Bool) :
    Links after words := by
  induction words generalizing after with
  | nil => trivial
  | cons word words ih =>
    have others := ih fun other member => plain other (List.mem_cons_of_mem _ member)
    cases word with
    | digit | multiplier => exact others _
    | zero => exact absurd rfl (plain _ (List.mem_cons_self ..))

theorem links_append {first second : List Word} {after : Bool} (links : Links after first)
    (further : Links ((first.getLast?.map isMultiplier).getD after) second) :
    Links after (first ++ second) := by
  induction first generalizing after with
  | nil => exact further
  | cons word first ih =>
    have last (before : Bool) : (((word :: first).getLast?.map isMultiplier).getD before) =
        (first.getLast?.map isMultiplier).getD (isMultiplier word) := by
      rw [List.getLast?_cons]
      cases first.getLast? <;> rfl
    rw [last] at further
    cases word with
    | digit | multiplier => exact ih links further
    | zero => exact ⟨links.1, ih links.2 further⟩

/-- Where positions are passed over, a multiplier comes before the zero. -/
theorem exists_getLast?_of_skips {place : Place} {next : Option Place} {front : List Word}
    (said : place.IsSaid style front) (skips : place.skips next = true) :
    ∃ exponent, (front ++ place.closing next).getLast? = some (.multiplier exponent) := by
  cases next with
  | none => simp [Place.skips] at skips
  | some next =>
    have lower : next.position + 1 < place.position := by simpa [Place.skips] using skips
    unfold Place.closing
    split
    · next openBlock =>
      cases said with
      | unit first =>
        -- A unit closes its block, unless it is the last one.
        have high := place.position_eq
        have low := next.position_eq
        rcases openBlock with lowest | same
        · omega
        · simp only [Option.any_some, beq_iff_eq] at same
          omega
      | full | bare => exact ⟨place.inner, by simp⟩
    · exact ⟨place.outer, by simp⟩

theorem links_of_isSaid {places : List Place} {words : List Word}
    (said : IsSaid style places words) (after : Bool) : Links after words := by
  induction said generalizing after with
  | nil => trivial
  | @cons place rest front back digit _ ih =>
    rw [List.append_assoc]
    apply links_append (links_of_ne_zero (Place.ne_zero_of_isSaid digit _) after)
    unfold Place.gap
    split
    · next marked =>
      have skips : place.skips rest.head? = true := by simpa [style] using marked
      obtain ⟨exponent, last⟩ := exists_getLast?_of_skips digit skips
      rw [last]
      exact ⟨rfl, ih false⟩
    · exact ih _

/-- Some words of a text are read as their tokens are. -/
theorem read?_of_isWritten {words : List Word} {text : List Char} (written : IsWritten words text)
    (links : Links false words) (nonempty : words ≠ []) :
    Scheme.chinese.reader.read? text =
      (Positional.grammar .word64 true).resolve .leftToRight (words.map Word.token) := by
  have filled : (words.map Word.token).isEmpty = false := by simp [nonempty]
  have tokens : Scheme.chinese.tokenize vocabulary text = some (words.map Word.token) := by
    have scanned := scan_of_isWritten written
      (show Links ((none : Option Token).any (Token.isPowerFrom 10)) words from links) none
    rw [Scheme.tokenize, Lexeme.tokens?, scanned, Option.filter_some, filled]
    rfl
  rw [show Scheme.chinese.reader.read? text = (Scheme.chinese.tokenize vocabulary text).bind
    (Scheme.chinese.evaluate .word64) from rfl, tokens, Option.bind_some]
  rfl

theorem isUsual_of_mem_characters : ∀ entry ∈ characters, entry.1.isUsual = true := by decide

namespace IsWritten

variable {words others : List Word} {text more : List Char}

theorem append (written : IsWritten words text) (further : IsWritten others more) :
    IsWritten (words ++ others) (text ++ more) := by
  induction written with
  | nil => exact further
  | cons listed _ ih => exact .cons listed ih

end IsWritten

theorem bounds_of_isUsual {exponent : Nat}
    (usual : (Word.multiplier exponent).isUsual = true) : 0 < exponent ∧ exponent ≤ 12 := by
  have bounds : ∀ exponent ∈ [1, 2, 3, 4, 8, 12], 0 < exponent ∧ exponent ≤ 12 := by decide
  exact bounds exponent (by simpa [Word.isUsual] using usual)

open Positional in
/-- After a multiplier a unit is abbreviated, unless a zero comes between them. -/
theorem exists_read_unit {state : Positional} {value unit : Nat} (after : state.After value)
    (large : 10 ≤ value) (positive : 0 < unit) (small : unit < 10) :
    (∃ next, read .word64 state [.number unit] = .joined next ∧
      next.total = state.total ∧ next.block = state.block ∧
      next.tail true = unit * (value / 10)) ∧
    ∃ next, read .word64 state [.connector, .number unit] = .joined next ∧
      next.total = state.total ∧ next.block = state.block ∧ next.tail true = unit := by
  constructor
  · have digit : push .word64 state (.number unit) = .joined (state.wait (.number unit)) :=
      push_digit positive small after.vacant after.free
    refine ⟨_, read_cons_of_joined digit [], rfl, rfl, ?_⟩
    have last := after.last
    simp [tail, wait, Token.number, after.fresh, small, last, large]
  · let linked : Positional := { state with afterMultiplier := false }
    have link : push .word64 state .connector = .joined linked := push_connector after.started
    have digit : push .word64 linked (.number unit) = .joined (linked.wait (.number unit)) :=
      push_digit positive small after.vacant after.free
    refine ⟨linked.wait (.number unit), ?_, rfl, rfl, ?_⟩
    · rw [read_cons_of_joined link, read_cons_of_joined digit]
      rfl
    · simp [tail, wait, Token.number, linked]

variable {n : Nat} {words : List Word} {text : List Char}

/-- Words that end in a digit may come after words that end in a multiplier. -/
theorem read?_append {more : List Word} {extra : List Char} {exponent digit : Nat}
    {after last : Positional} (said : IsSaid style (places 16 n) words) (filled : words ≠ [])
    (written : IsWritten words text) (multiplies : words.getLast? = some (.multiplier exponent))
    (joined : Positional.read .word64 .initial (words.map Word.token) = .joined after)
    (further : IsWritten more extra) (links : Links true more)
    (ends : more.getLast? = some (.digit digit))
    (read : Positional.read .word64 after (more.map Word.token) = .joined last)
    (fits : last.total + last.block + last.tail true < UInt64.size) :
    Scheme.chinese.reader.read? (text ++ extra) =
      some (Nat.toDigits 10 (last.total + last.block + last.tail true)) := by
  have whole : (words ++ more).getLast? = some (.digit digit) := by
    rw [List.getLast?_append, ends, Option.some_or]
  have begins : (words ++ more).head? ≠ some .zero := by
    rw [List.head?_append, List.head?_eq_some_head filled, Option.some_or,
      ← List.head?_eq_some_head filled]
    cases listed : places 16 n with
    | nil =>
      rw [listed] at said
      cases said
      simp at filled
    | cons place rest =>
      rw [listed] at said
      exact said.head?_ne_zero
  have linked : Links false (words ++ more) := by
    apply links_append (links_of_isSaid said false)
    rw [multiplies]
    exact links
  rw [read?_of_isWritten (written.append further) linked (by simp [filled])]
  refine resolve_words ?_ rfl fits (by simp [filled]) begins (by simp [whole]) _
  rw [List.map_append, Positional.read_append_of_joined joined, read]

/-- A numeral that ends in a multiplier is read up to the time right after it. -/
theorem exists_read_after {exponent : Nat} (positive : 0 < n) (small : n < 10 ^ 16)
    (said : IsSaid style (places 16 n) words)
    (ends : words.getLast? = some (.multiplier exponent)) :
    0 < exponent ∧ exponent ≤ 12 ∧
      ∃ after, Positional.read .word64 .initial (words.map Word.token) = .joined after ∧
        after.After (10 ^ exponent) ∧ after.total + after.block = n := by
  obtain ⟨-, -, after, -, joined, holds⟩ := exists_read_places positive small said
  obtain ⟨front, split⟩ := List.getLast?_eq_some_iff.1 ends
  have usual := said.isUsual (fun _ member => position_lt_of_mem_places member) _
    (List.mem_of_getLast? ends)
  have bounds := bounds_of_isUsual usual
  have multiplied : after.After (10 ^ exponent) := by
    rw [split, List.map_append] at joined
    exact Positional.after_of_read bounds.1 joined
  have sum := holds.sum
  rw [Positional.pendingValue, multiplied.vacant] at sum
  exact ⟨bounds.1, bounds.2, after, joined, multiplied, sum⟩

/-- A number below 10^16 that is written in number characters is read as its digits. A
unit after the last multiplier of a numeral stands for the next lower position, and a
unit after a zero for itself. -/
theorem reads_of_isWritten (small : n < 10 ^ 16) (numeral : IsNumeral style n words)
    (written : IsWritten words text) :
    Scheme.chinese.reader.read? text = some (Nat.toDigits 10 n) ∧
      ∀ exponent, words.getLast? = some (.multiplier exponent) →
        ∀ unit c, (.digit unit, c) ∈ characters →
          Scheme.chinese.reader.read? (text ++ [c]) =
              some (Nat.toDigits 10 (n + unit * (10 ^ exponent / 10))) ∧
            ∀ zero, (.zero, zero) ∈ characters →
              Scheme.chinese.reader.read? (text ++ [zero, c]) =
                some (Nat.toDigits 10 (n + unit)) := by
  cases numeral with
  | zero =>
    have alone : ∀ entry ∈ characters, entry.1 = .zero →
        Scheme.chinese.reader.read? [entry.2] = some (Nat.toDigits 10 0) := by
      decide +kernel
    cases written with
    | cons listed others =>
      cases others
      exact ⟨alone _ listed rfl, by simp⟩
  | positive positive said =>
    obtain ⟨place, rest, after, listed, joined, holds⟩ := exists_read_places positive small said
    have first := listed ▸ said
    refine ⟨?_, fun exponent ends unit c digit => ?_⟩
    · rw [read?_of_isWritten written (links_of_isSaid said false) first.ne_nil]
      refine resolve_words joined ?_ (Nat.lt_trans small (by decide)) first.ne_nil
        first.head?_ne_zero first.getLast?_ne_zero _
      rw [← holds.sum, ← holds.tail]
      rfl
    · obtain ⟨above, bound, after, joined, multiplied, value⟩ :=
        exists_read_after positive small said ends
      have single : 0 < unit ∧ unit < 10 := of_decide_eq_true (isUsual_of_mem_characters _ digit)
      have ten : 10 ^ 1 ≤ 10 ^ exponent := Nat.pow_le_pow_right (by decide) above
      have most : 10 ^ exponent ≤ 10 ^ 12 := Nat.pow_le_pow_right (by decide) bound
      obtain ⟨⟨short, reads, total, block, tail⟩, long, through, whole, part, unabbreviated⟩ :=
        exists_read_unit multiplied (by omega) single.1 single.2
      have scaled : unit * (10 ^ exponent / 10) ≤ 9 * (10 ^ 12 / 10) :=
        Nat.mul_le_mul (by omega) (Nat.div_le_div_right most)
      have room : 10 ^ 16 + 9 * (10 ^ 12 / 10) < UInt64.size := by decide
      constructor
      · have read := read?_append said first.ne_nil written ends joined (.cons digit .nil) trivial
          rfl reads (by omega)
        rwa [total, block, tail, value] at read
      · intro zero mark
        have read := read?_append said first.ne_nil written ends joined
          (.cons mark (.cons digit .nil)) ⟨rfl, trivial⟩ rfl through (by omega)
        rwa [whole, part, unabbreviated, value] at read

/-- Both zeros, both words for two, a bare ten, and what comes after a numeral. -/
theorem reads_hundred_million :
    Scheme.chinese.reader.read? "十二亿零两百〇三万".toList = some "1202030000".toList ∧
      Scheme.chinese.reader.read? ("十二亿零两百〇三万".toList ++ ['五']) =
        some "1202035000".toList ∧
      Scheme.chinese.reader.read? ("十二亿零两百〇三万".toList ++ ['零', '五']) =
        some "1202030005".toList := by
  have numeral : IsNumeral style 1202030000 [.multiplier 1, .digit 2, .multiplier 8, .zero,
      .digit 2, .multiplier 2, .zero, .digit 3, .multiplier 4] :=
    .positive (by decide) <| .cons (.bare (by decide) rfl rfl) <| .cons (.unit rfl) <|
      .cons (.full (by decide)) <| .cons (.unit rfl) .nil
  have written : IsWritten [.multiplier 1, .digit 2, .multiplier 8, .zero, .digit 2, .multiplier 2,
      .zero, .digit 3, .multiplier 4] ['十', '二', '亿', '零', '两', '百', '〇', '三', '万'] :=
    .cons (by decide) <| .cons (by decide) <| .cons (by decide) <| .cons (by decide) <|
      .cons (by decide) <| .cons (by decide) <| .cons (by decide) <| .cons (by decide) <|
      .cons (by decide) .nil
  have reads := reads_of_isWritten (by decide) numeral written
  have appended := reads.2 4 rfl 5 '五' (by decide)
  exact ⟨reads.1, appended.1, appended.2 '零' (by decide)⟩

/-- Every number has a numeral that can be written. -/
theorem exists_isWritten (n : Nat) :
    ∃ words text, IsNumeral style n words ∧ IsWritten words text := by
  have characterOf {word : Word} (usual : word.isUsual = true) : ∃ c, (word, c) ∈ characters := by
    have digits : ∀ value < 10, 0 < value → .digit value ∈ characters.map Prod.fst := by decide
    have multipliers : ∀ exponent ∈ [1, 2, 3, 4, 8, 12],
        .multiplier exponent ∈ characters.map Prod.fst := by
      decide
    have listed : word ∈ characters.map Prod.fst := by
      cases word with
      | digit value =>
        have bounds := of_decide_eq_true usual
        exact digits value bounds.2 bounds.1
      | multiplier exponent => exact multipliers exponent (by simpa [Word.isUsual] using usual)
      | zero => decide
    obtain ⟨⟨_, c⟩, member, rfl⟩ := List.mem_map.1 listed
    exact ⟨c, member⟩
  obtain ⟨words, numeral⟩ := exists_isNumeral style n
  have written : ∀ words : List Word, (∀ word ∈ words, word.isUsual = true) →
      ∃ text, IsWritten words text := by
    intro words usual
    induction words with
    | nil => exact ⟨[], .nil⟩
    | cons word words ih =>
      obtain ⟨text, others⟩ := ih fun other member => usual other (List.mem_cons_of_mem _ member)
      obtain ⟨c, listed⟩ := characterOf (usual word (List.mem_cons_self ..))
      exact ⟨c :: text, .cons listed others⟩
  obtain ⟨text, characters⟩ := written words numeral.isUsual
  exact ⟨words, text, numeral, characters⟩

end Phrasebook.Numeral.Chinese
