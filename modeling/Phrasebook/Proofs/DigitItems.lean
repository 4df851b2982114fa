import Phrasebook.Proofs.Scanning
import Phrasebook.Proofs.SeparateTokens
import Phrasebook.Proofs.Vocabulary

/-! Words for digits, and digit strings.

A digit sequence is made of these items. Each has a token that supplies the units, and the
vocabulary has no longer entry that would swallow the beginning of a sequence.
-/

set_option autoImplicit false

namespace Phrasebook

open Text

namespace Numeral

/-- A word for a digit, or a written digit string. -/
inductive DigitItem where
  | word (entry : Entry)
  | digits (text : List Char)
  deriving Repr, DecidableEq

namespace DigitItem

def written : DigitItem → List Char
  | word entry => entry.word
  | digits text => text

def token : DigitItem → Token
  | word entry => entry.token
  | digits text => .written text

/-- The digits that an item stands for. A digit string is taken as it is. -/
def reading : DigitItem → List Char
  | word entry => Nat.toDigits 10 entry.token.value
  | digits text => text

/-- The word is one of the language, and the digit string is neither overlong nor beyond 64 bits. -/
def IsOf (scheme : Scheme) : DigitItem → Prop
  | word entry =>
    entry ∈ scheme.lexicon.entries ∧ entry.token.kind = .number ∧ entry.token.value < 10
  | digits text =>
    text ≠ [] ∧ text.length ≤ 20 ∧ text.all Token.isDigit = true ∧
      Token.decimalValue text < UInt64.size

instance (scheme : Scheme) : ∀ item : DigitItem, Decidable (item.IsOf scheme)
  | word _ | digits _ => inferInstanceAs (Decidable (_ ∧ _))

end DigitItem

namespace Scheme

def signs : List Char := ['0', '1', '2', '3', '4', '5', '6', '7', '8', '9']

def digitWords (scheme : Scheme) : List Entry :=
  scheme.lexicon.entries.filter fun entry =>
    entry.token.kind == .number && decide (entry.token.value < 10)

/-- What an item of a digit sequence can begin with. -/
def firsts (scheme : Scheme) : List Char :=
  signs ++ scheme.digitWords.filterMap fun entry => entry.word.head?

/-- Blocks with the letters of the words for digits and scales, without capitals and digits. -/
def letterRanges : List (Nat × Nat) :=
  [(0x61, 0x7A), (0xE9, 0xE9), (0xF3, 0xF3), (0x3007, 0x3007), (0x3041, 0x3096), (0x4E00, 0x9FFF)]

/-- The blocks have only word characters, and nothing that is lowered. -/
theorem letterRanges_checked :
    letterRanges.all (fun range =>
      (wordRanges.any fun block => decide (block.1 ≤ range.1 ∧ range.2 ≤ block.2)) &&
        lowercaseRuns.all fun run => decide (range.2 < run.first ∨ run.last < range.1)) = true := by
  decide +kernel

theorem of_letter {c : Char} (letter : inRanges letterRanges c = true) :
    isWordChar c = true ∧ lowerChar c = [c] := by
  obtain ⟨range, listed, low, high⟩ := inRanges_iff.1 letter
  obtain ⟨within, apart⟩ :=
    Bool.and_eq_true_iff.1 (List.all_eq_true.1 letterRanges_checked range listed)
  constructor
  · obtain ⟨block, member, covers⟩ := List.any_eq_true.1 within
    have bounds := of_decide_eq_true covers
    exact inRanges_iff.2 ⟨block, member, Nat.le_trans bounds.1 low, Nat.le_trans high bounds.2⟩
  · refine lowerChar_of_apart ?_ fun run member => ?_
    · rintro rfl
      exact absurd letter (by decide)
    · have outside := of_decide_eq_true (List.all_eq_true.1 apart run member)
      omega

/-- The blocks lie between the digits and the wide digits. -/
theorem asciiDigit?_of_letter {c : Char} (letter : inRanges letterRanges c = true) :
    Lexeme.asciiDigit? c = none := by
  have between : ∀ range ∈ letterRanges, 0x39 < range.1 ∧ range.2 < 0xFF10 := by decide
  obtain ⟨range, listed, low, high⟩ := inRanges_iff.1 letter
  obtain ⟨above, below⟩ := between range listed
  have narrow : ¬ c ≤ '9' := fun digit => by
    have most : c.toNat ≤ 0x39 := digit
    omega
  have wide : ¬ '０' ≤ c := fun digit => by
    have least : 0xFF10 ≤ c.toNat := digit
    omega
  simp [Lexeme.asciiDigit?, Token.isDigit, narrow, wide]

/-- No entry begins with a space or a digit. Each word for a digit is stored with its token and
made of letters, and no entry goes on after it with a space and another item. -/
theorem digitWords_checked (scheme : Scheme) :
    ((' ' :: signs).all (fun c => !scheme.lexicon.vocabulary.meets [c]) &&
      scheme.digitWords.all fun entry =>
        decide (entry.token = .number entry.token.value) &&
          (decide (scheme.lexicon.vocabulary.get? entry.word = some entry.token) &&
            (!entry.word.isEmpty && (entry.word.all (inRanges letterRanges) &&
              scheme.firsts.all fun c =>
                !(scheme.lexicon.vocabulary.descend entry.word).meets [' ', c])))) = true := by
  -- The strings become characters first, which is slow when it is left to the kernel.
  cases scheme <;>
    simp only [firsts, digitWords, lexicon, Lexicon.vocabulary, Lexicon.ofWords, Entry.number,
      Entry.connector, Lexicon.english, Lexicon.french, Lexicon.spanish, Lexicon.japanese,
      Lexicon.chinese, Lexicon.French.compounds, Lexicon.French.onBase, Lexicon.French.simple,
      Lexicon.French.units, Lexicon.French.teens, Lexicon.French.tens, Lexicon.French.highUnits,
      String.toList_append, String.reduceToList, List.map_cons, List.map_nil, List.flatMap_cons,
      List.flatMap_nil, List.drop_succ_cons, List.drop_zero, List.cons_append, List.nil_append] <;>
    decide +kernel

theorem meets_sign (scheme : Scheme) {c : Char} (listed : c ∈ ' ' :: signs) :
    scheme.lexicon.vocabulary.meets [c] = false := by
  have checked := (Bool.and_eq_true_iff.1 scheme.digitWords_checked).1
  simpa using List.all_eq_true.1 checked c listed

/-- An entry that is found by its letters. -/
structure IsStored (scheme : Scheme) (entry : Entry) : Prop where
  stored : scheme.lexicon.vocabulary.get? entry.word = some entry.token
  nonempty : entry.word ≠ []
  letters : ∀ c ∈ entry.word, inRanges letterRanges c = true

/-- No entry goes on after a word with what comes next. -/
def EndsBefore (scheme : Scheme) (word rest : List Char) : Prop :=
  rest = [] ∨ ∃ next, next <+: rest ∧ (scheme.lexicon.vocabulary.descend word).meets next = false

/-- What is known of a word for a digit. -/
structure IsDigitWord (scheme : Scheme) (entry : Entry) : Prop extends IsStored scheme entry where
  token : entry.token = .number entry.token.value
  small : entry.token.value < 10
  apart : ∀ c ∈ scheme.firsts, (scheme.lexicon.vocabulary.descend entry.word).meets [' ', c] = false

theorem isDigitWord {scheme : Scheme} {entry : Entry} (listed : entry ∈ scheme.digitWords) :
    scheme.IsDigitWord entry := by
  have checked := List.all_eq_true.1 (Bool.and_eq_true_iff.1 scheme.digitWords_checked).2 entry listed
  simp only [Bool.and_eq_true, decide_eq_true_eq] at checked
  obtain ⟨token, stored, nonempty, letters, apart⟩ := checked
  have small := (Bool.and_eq_true_iff.1 (List.mem_filter.1 listed).2).2
  exact ⟨⟨stored, by simpa using nonempty, List.all_eq_true.1 letters⟩, token, by simpa using small,
    fun c first => by simpa using List.all_eq_true.1 apart c first⟩

/-- What is known of the character of a digit. -/
structure IsSign (c : Char) : Prop where
  word : isWordChar c = true
  lowered : lowerChar c = [c]
  decimal : isDecimal c = true
  digit : Token.isDigit c = true
  ascii : Lexeme.asciiDigit? c = some c

theorem isSign {c : Char} (listed : c ∈ signs) : IsSign c := by
  have checked : signs.all (fun c => isWordChar c && (isCaseless c && (isDecimal c &&
      (Token.isDigit c && Lexeme.asciiDigit? c == some c)))) = true := by decide
  have facts := List.all_eq_true.1 checked c listed
  simp only [Bool.and_eq_true, beq_iff_eq] at facts
  obtain ⟨word, caseless, decimal, digit, ascii⟩ := facts
  exact ⟨word, lowerChar_of_isCaseless caseless, decimal, digit, ascii⟩

theorem mem_signs_of_isDigit {c : Char} (digit : Token.isDigit c = true) : c ∈ signs := by
  have checked : ∀ value < 10, Nat.digitChar value ∈ signs := by decide
  obtain ⟨small, same⟩ := Token.of_isDigit digit
  rw [← same]
  exact checked _ small

end Scheme

/-- A part of a text without gaps and capitals. -/
structure IsSolid (part : List Char) : Prop where
  nonempty : part ≠ []
  letters : ∀ c ∈ part, isWordChar c = true ∧ lowerChar c = [c]

theorem IsSolid.not_isWordGap {part : List Char} (solid : IsSolid part) :
    ∀ c ∈ part, isWordGap c = false := by
  intro c member
  rw [← Bool.not_eq_true]
  intro gap
  have letter := (solid.letters c member).1
  rw [not_isWordChar_of_isWordGap gap] at letter
  cases letter

theorem Scheme.IsStored.isSolid {scheme : Scheme} {entry : Entry} (known : scheme.IsStored entry) :
    IsSolid entry.word :=
  ⟨known.nonempty, fun c member => of_letter (known.letters c member)⟩

namespace DigitItem

open Scheme (signs)

variable {scheme : Scheme} {item : DigitItem} {items : List DigitItem} {rest : List Char}

theorem mem_digitWords {entry : Entry} (isOf : (word entry).IsOf scheme) :
    entry ∈ scheme.digitWords :=
  List.mem_filter.2 ⟨isOf.1, by simp [isOf.2.1, isOf.2.2]⟩

theorem isSeparate_token (isOf : item.IsOf scheme) : item.token.IsSeparate := by
  cases item with
  | word entry =>
    have known := Scheme.isDigitWord (mem_digitWords isOf)
    rw [token, known.token]
    exact Token.isSeparate_number known.small
  | digits text => exact Token.isSeparate_written isOf.1 isOf.2.2.2

theorem reading_token (isOf : item.IsOf scheme) : item.token.reading = item.reading := by
  cases item with
  | word entry =>
    have known := Scheme.isDigitWord (mem_digitWords isOf)
    rw [token, known.token]
    rfl
  | digits text => exact Token.reading_written isOf.1 isOf.2.2.1

theorem mem_signs_of_digits {text : List Char} (isOf : (digits text).IsOf scheme) :
    ∀ c ∈ text, c ∈ signs :=
  fun c member => Scheme.mem_signs_of_isDigit (List.all_eq_true.1 isOf.2.2.1 c member)

theorem isSolid_digits {text : List Char} (isOf : (digits text).IsOf scheme) : IsSolid text := by
  refine ⟨isOf.1, fun c member => ?_⟩
  have sign := Scheme.isSign (mem_signs_of_digits isOf c member)
  exact ⟨sign.word, sign.lowered⟩

theorem isSolid_written (isOf : item.IsOf scheme) : IsSolid item.written := by
  cases item with
  | word entry => exact (Scheme.isDigitWord (mem_digitWords isOf)).isSolid
  | digits text => exact isSolid_digits isOf

theorem exists_first (isOf : item.IsOf scheme) :
    ∃ c others, item.written = c :: others ∧ c ∈ scheme.firsts := by
  obtain ⟨c, others, eq⟩ := List.exists_cons_of_ne_nil (isSolid_written isOf).nonempty
  refine ⟨c, others, eq, ?_⟩
  cases item with
  | word entry =>
    refine List.mem_append_right _ (List.mem_filterMap.2 ⟨entry, mem_digitWords isOf, ?_⟩)
    rw [show entry.word = c :: others from eq]
    rfl
  | digits text =>
    have inside : c ∈ text := by
      rw [show text = c :: others from eq]
      exact List.mem_cons_self
    exact List.mem_append_left _ (mem_signs_of_digits isOf c inside)

/-- What comes after an item: the end of the text, or a space and another item. -/
def Onward (scheme : Scheme) (rest : List Char) : Prop :=
  rest = [] ∨ ∃ c others, c ∈ scheme.firsts ∧ rest = ' ' :: c :: others

/-- At the end of the text, or before a space. -/
def Spaced (rest : List Char) : Prop := ∀ c, rest.head? = some c → c = ' '

theorem Onward.spaced (onward : Onward scheme rest) : Spaced rest := by
  rintro c ahead
  rcases onward with rfl | ⟨_, _, -, rfl⟩
  · cases ahead
  · cases ahead
    rfl

/-- A word for a digit is not continued by another item. -/
theorem endsBefore_onward {entry : Entry} (isOf : (word entry).IsOf scheme)
    (onward : Onward scheme rest) : scheme.EndsBefore entry.word rest := by
  refine onward.imp_right ?_
  rintro ⟨c, others, first, rfl⟩
  exact ⟨[' ', c], ⟨others, rfl⟩, (Scheme.isDigitWord (mem_digitWords isOf)).apart c first⟩

/-- No entry is found at a space or a digit. -/
theorem longestWhere?_sign {c : Char} (listed : c ∈ ' ' :: signs) (accepts : Nat → Bool)
    (rest : List Char) : scheme.lexicon.vocabulary.longestWhere? accepts (c :: rest) = none := by
  refine Trie.longestWhere?_eq_none fun length _ =>
    Trie.get?_eq_none_of_meets (scheme.meets_sign listed) ?_
  cases length with
  | zero => exact .inl List.nil_prefix
  | succ length => exact .inr ⟨rest.take length, rfl⟩

theorem longestWhere?_digits {text : List Char} (isOf : (digits text).IsOf scheme)
    (accepts : Nat → Bool) (rest : List Char) :
    scheme.lexicon.vocabulary.longestWhere? accepts (text ++ rest) = none := by
  obtain ⟨c, others, rfl⟩ := List.exists_cons_of_ne_nil isOf.1
  exact longestWhere?_sign (List.mem_cons_of_mem _ (mem_signs_of_digits isOf c List.mem_cons_self))
    accepts _

theorem takeWhile_digits {text : List Char} {isSign : Char → Bool}
    (isOf : (digits text).IsOf scheme) (signs : ∀ c ∈ signs, isSign c = true)
    (space : isSign ' ' = false) (spaced : Spaced rest) :
    (text ++ rest).takeWhile isSign = text := by
  have stops : rest.takeWhile isSign = [] := by
    cases rest with
    | nil => rfl
    | cons c others =>
      rw [spaced c rfl, List.takeWhile_cons_of_neg (by simp [space])]
  rw [List.takeWhile_append_of_pos fun c member => signs c (mem_signs_of_digits isOf c member),
    stops, List.append_nil]

theorem explicit?_digits {text : List Char} (isOf : (digits text).IsOf scheme) :
    Token.explicit? text = some (.written text) :=
  Token.explicit?_eq_some isOf.1 isOf.2.1 isOf.2.2.1 isOf.2.2.2

end DigitItem

end Numeral

end Phrasebook
