import Phrasebook.Proofs.DigitSequences
import Phrasebook.Text.Offset

/-! A pattern with the words of a lexicon.

The words of a lexicon and digit strings are the alternatives of a pattern. It is matched
from left to right, and at each place the first alternative that fits is taken; the longest
words come first. A text is read if only gaps are left between the matches. A scanner that
looks for the longest word at its place finds the same tokens.
-/

set_option autoImplicit false

namespace Phrasebook

open Text

namespace Numeral

/-- The order of the alternatives: longer words come first, equally long ones by their letters. -/
def precedes (first second : List Char) : Bool :=
  decide (byteLength second < byteLength first ∨
    byteLength second = byteLength first ∧ ¬second < first)

/-- The words of a lexicon, the longest first. -/
def Lexicon.alternatives (lexicon : Lexicon) : List (List Char) :=
  (lexicon.entries.map Entry.word).mergeSort precedes

namespace Alternation

/-- The lengths that the alternatives have at the front of a text, in the order in which they
are tried. A digit string gives back digits from its end. -/
def lengths (alternatives : List (List Char)) (text : List Char) : List Nat :=
  (alternatives.filter (·.isPrefixOf text)).map List.length ++
    ((List.range (text.takeWhile isDecimal).length).map (· + 1)).reverse

/-- Whether the front of a text starts and ends where a word does. -/
def isWhole (before : Option Char) (text : List Char) (length : Nat) : Bool :=
  isWordEdge before text.head? &&
    isWordEdge (text.take length).getLast? (text.drop length).head?

/-- The length of the match at the front of a text. -/
def matchAt? (bounded : Bool) (alternatives : List (List Char)) (before : Option Char)
    (text : List Char) : Option Nat :=
  (lengths alternatives text).find? fun length => !bounded || isWhole before text length

/-- The matches in a text, each after the gap before it, and the gap after the last one. -/
def search (bounded : Bool) (alternatives : List (List Char)) (before : Option Char)
    (gap : List Char) : List Char → List (List Char × List Char) × List Char
  | [] => ([], gap)
  | c :: rest =>
    match matchAt? bounded alternatives before (c :: rest) with
    | none => search bounded alternatives (some c) (gap ++ [c]) rest
    | some length =>
      let found := (c :: rest).take length
      let others := search bounded alternatives found.getLast? [] (rest.drop (length - 1))
      ((gap, found) :: others.1, others.2)
termination_by text => text.length
decreasing_by all_goals simp only [List.length_cons, List.length_drop]; omega

/-- The token of a match, unless something else than a gap stands before it. -/
def token? (isGap : Char → Bool) (tokenOf? : List Char → Option Token)
    (part : List Char × List Char) : Option Token :=
  if part.1.all isGap then tokenOf? part.2 else none

/-- The tokens of the matches in a text, of which there must be at least one. -/
def tokens? (bounded : Bool) (alternatives : List (List Char)) (isGap : Char → Bool)
    (tokenOf? : List Char → Option Token) (text : List Char) : Option (List Token) :=
  let found := search bounded alternatives none [] text
  (found.1.mapM (token? isGap tokenOf?)).filter fun tokens =>
    !tokens.isEmpty && found.2.all isGap

/-- The tokens of matches, where a match may have another token after the token before it. -/
def readInOrder (isGap : Char → Bool) (tokenOf? : Option Token → List Char → Option Token)
    (previous : Option Token) : List (List Char × List Char) → Option (List Token)
  | [] => some []
  | part :: others =>
    (token? isGap (tokenOf? previous) part).bind fun token =>
      (readInOrder isGap tokenOf? (some token) others).map (token :: ·)

/-- The tokens of the matches in a text, each found after the one before it. -/
def tokensInOrder? (bounded : Bool) (alternatives : List (List Char)) (isGap : Char → Bool)
    (tokenOf? : Option Token → List Char → Option Token) (text : List Char) :
    Option (List Token) :=
  let found := search bounded alternatives none [] text
  (readInOrder isGap tokenOf? none found.1).filter fun tokens =>
    !tokens.isEmpty && found.2.all isGap

/-- A scanner finds at each place what the pattern matches there. -/
def Follows (scanner : Lexeme.Scanner) (bounded : Bool) (alternatives : List (List Char))
    (isGap : Char → Bool) (tokenOf? : Option Token → List Char → Option Token) : Prop :=
  ∀ before previous text,
    (∃ length, matchAt? bounded alternatives before text = some length ∧ 0 < length ∧
      length ≤ text.length ∧
      scanner before previous text =
        Lexeme.ofToken? length (tokenOf? previous (text.take length))) ∨
    matchAt? bounded alternatives before text = none ∧
      scanner before previous text = if text.head?.any isGap then .gap else .unreadable

end Alternation

/-- Each entry is a single word that is found by its letters. -/
structure Lexicon.IsWordwise (lexicon : Lexicon) : Prop where
  stored : ∀ entry ∈ lexicon.entries, lexicon.vocabulary.get? entry.word = some entry.token
  letters : ∀ entry ∈ lexicon.entries, ∀ c ∈ entry.word, isWordChar c = true ∧ isDecimal c = false

namespace Lexicon.IsWordwise

variable {lexicon : Lexicon} (wordwise : lexicon.IsWordwise) {word text rest : List Char}
  {token : Token}

include wordwise

theorem get?_eq_some_iff : lexicon.vocabulary.get? word = some token ↔
    ∃ entry ∈ lexicon.entries, entry.word = word ∧ entry.token = token := by
  constructor
  · intro found
    obtain ⟨entry, listed, eq⟩ := List.mem_map.1 (Trie.mem_of_get?_ofList found)
    exact ⟨entry, listed, congrArg Prod.fst eq, congrArg Prod.snd eq⟩
  · rintro ⟨entry, listed, rfl, rfl⟩
    exact wordwise.stored entry listed

theorem mem_alternatives_iff :
    word ∈ lexicon.alternatives ↔ (lexicon.vocabulary.get? word).isSome = true := by
  simp only [alternatives, List.mem_mergeSort, List.mem_map, Option.isSome_iff_exists,
    wordwise.get?_eq_some_iff]
  constructor
  · rintro ⟨entry, listed, same⟩
    exact ⟨entry.token, entry, listed, same, rfl⟩
  · rintro ⟨token, entry, listed, same, -⟩
    exact ⟨entry, listed, same⟩

theorem letters_of_get? (found : lexicon.vocabulary.get? word = some token) :
    word ≠ [] ∧ ∀ c ∈ word, isWordChar c = true ∧ isDecimal c = false := by
  refine ⟨?_, ?_⟩
  · rintro rfl
    rw [Trie.get?_nil] at found
    cases found
  · obtain ⟨entry, listed, rfl, -⟩ := wordwise.get?_eq_some_iff.1 found
    exact wordwise.letters entry listed

end Lexicon.IsWordwise

theorem precedes_trans {first second third : List Char} (longer : precedes first second = true)
    (further : precedes second third = true) : precedes first third = true := by
  rcases of_decide_eq_true longer with more | ⟨same, least⟩ <;>
    rcases of_decide_eq_true further with most | ⟨equal, less⟩
  · exact decide_eq_true (.inl (by omega))
  · exact decide_eq_true (.inl (by omega))
  · exact decide_eq_true (.inl (by omega))
  · exact decide_eq_true (.inr ⟨by omega, List.le_trans least less⟩)

theorem precedes_total (first second : List Char) :
    (precedes first second || precedes second first) = true := by
  have total : ¬second < first ∨ ¬first < second := List.le_total first second
  rw [Bool.or_eq_true, precedes, precedes, decide_eq_true_eq, decide_eq_true_eq]
  grind

theorem pairwise_alternatives (lexicon : Lexicon) :
    lexicon.alternatives.Pairwise fun first second => byteLength second ≤ byteLength first := by
  have sorted : lexicon.alternatives.Pairwise fun first second => precedes first second = true :=
    @List.pairwise_mergeSort _ precedes (fun _ _ _ => precedes_trans) precedes_total _
  refine sorted.imp fun longer => ?_
  have := of_decide_eq_true longer
  omega

namespace Alternation

variable {lexicon : Lexicon} {before : Option Char} {previous : Option Token}
  {c : Char} {text rest word gap : List Char} {length : Nat} {token : Token}
  {accepts : Nat → Bool}

theorem byteLength_take_lt {shorter longer : Nat} (less : shorter < longer)
    (fits : longer ≤ text.length) : byteLength (text.take shorter) < byteLength (text.take longer) := by
  obtain ⟨more, rfl⟩ := Nat.exists_eq_add_of_lt less
  have between : (text.drop shorter).take (more + 1) ≠ [] := by
    rw [← List.length_pos_iff, List.length_take, List.length_drop]
    omega
  obtain ⟨c, others, eq⟩ := List.exists_cons_of_ne_nil between
  have positive := c.utf8Size_pos
  rw [Nat.add_assoc, List.take_add, byteLength_append, eq, byteLength_cons]
  omega

/-- Where a longest word is found, it is the first alternative that fits. -/
theorem find?_lengths_of_word (wordwise : lexicon.IsWordwise)
    (found : lexicon.vocabulary.longestWhere? accepts text = some (length, token)) :
    (lengths lexicon.alternatives text).find? accepts = some length := by
  obtain ⟨fits, stored, accepted, longest⟩ := Trie.longestWhere?_eq_some_iff.1 found
  have fitting {other : List Char}
      (member : other ∈ lexicon.alternatives.filter (·.isPrefixOf text)) :
      other.length ≤ text.length ∧ other = text.take other.length ∧
        (lexicon.vocabulary.get? other).isSome = true := by
    obtain ⟨present, starts⟩ := List.mem_filter.1 member
    rw [List.isPrefixOf_iff_prefix] at starts
    exact ⟨starts.length_le, List.prefix_iff_eq_take.1 starts,
      wordwise.mem_alternatives_iff.1 present⟩
  have listed : text.take length ∈ lexicon.alternatives.filter (·.isPrefixOf text) := by
    rw [List.mem_filter, wordwise.mem_alternatives_iff, stored, List.isPrefixOf_iff_prefix]
    exact ⟨rfl, List.take_prefix _ _⟩
  have taken : (text.take length).length = length := List.length_take_of_le fits
  have first : (lexicon.alternatives.filter (·.isPrefixOf text)).find?
      (fun other => accepts other.length) = some (text.take length) := by
    cases first : (lexicon.alternatives.filter (·.isPrefixOf text)).find?
        (fun other => accepts other.length) with
    | none => exact absurd (by rwa [taken]) (List.find?_eq_none.1 first _ listed)
    | some other =>
      obtain ⟨also, earlier, later, split, refused⟩ := List.find?_eq_some_iff_append.1 first
      have member : other ∈ lexicon.alternatives.filter (·.isPrefixOf text) := by simp [split]
      obtain ⟨short, same, known⟩ := fitting member
      rcases Nat.lt_trichotomy other.length length with less | equal | more
      · -- A shorter one comes later in the order of the alternatives.
        have sorted := (pairwise_alternatives lexicon).filter (·.isPrefixOf text)
        rw [split] at sorted listed
        have bytes := byteLength_take_lt less fits
        rw [← same] at bytes
        rcases List.mem_append.1 listed with early | late
        · have unfit := refused _ early
          rw [taken, accepted] at unfit
          cases unfit
        · rcases List.mem_cons.1 late with alone | late
          · rw [alone] at bytes
            exact absurd bytes (Nat.lt_irrefl _)
          · have order := List.rel_of_pairwise_cons (List.pairwise_append.1 sorted).2.1 late
            omega
      · rw [same, equal]
      · rw [same, longest other.length more short also] at known
        cases known
  have front : ((lexicon.alternatives.filter (·.isPrefixOf text)).map List.length).find? accepts =
      some length := by
    rw [List.find?_map, show accepts ∘ List.length = fun other => accepts other.length from rfl,
      first, Option.map_some, taken]
  rw [lengths, List.find?_append, front]
  rfl

/-- Where no word is found, only digits can fit. -/
theorem find?_lengths_of_no_word (wordwise : lexicon.IsWordwise)
    (none : lexicon.vocabulary.longestWhere? accepts text = none) :
    (lengths lexicon.alternatives text).find? accepts =
      ((List.range (text.takeWhile isDecimal).length).map (· + 1)).reverse.find? accepts := by
  have words : ((lexicon.alternatives.filter (·.isPrefixOf text)).map List.length).find? accepts =
      Option.none := by
    rw [List.find?_eq_none]
    intro length listed accepted
    obtain ⟨other, member, rfl⟩ := List.mem_map.1 listed
    obtain ⟨present, starts⟩ := List.mem_filter.1 member
    rw [List.isPrefixOf_iff_prefix] at starts
    have known := wordwise.mem_alternatives_iff.1 present
    rw [List.prefix_iff_eq_take.1 starts,
      Trie.longestWhere?_eq_none_iff.1 none _ starts.length_le accepted] at known
    cases known
  rw [lengths, List.find?_append, words, Option.none_or]


/-- Digits that go on are not at the end of a word. -/
theorem isWhole_of_digits {length : Nat} (positive : 0 < length)
    (less : length < (text.takeWhile isDecimal).length) : isWhole before text length = false := by
  have digit (index : Nat) (inside : index < (text.takeWhile isDecimal).length) :
      ∃ d, text[index]? = some d ∧ isWordChar d = true := by
    refine ⟨(text.takeWhile isDecimal)[index], ?_, isWordChar_of_isDecimal ?_⟩
    · rw [← List.getElem?_eq_getElem inside]
      exact (List.prefix_iff_getElem?.1 (List.takeWhile_prefix isDecimal) index inside).trans
        (List.getElem?_eq_getElem inside).symm
    · exact List.mem_takeWhile_imp (List.getElem_mem inside)
  obtain ⟨last, here, letter⟩ := digit (length - 1) (by omega)
  obtain ⟨next, ahead, also⟩ := digit length less
  rw [isWhole, List.head?_drop, ahead, List.getLast?_take, if_neg (by omega), here]
  simp [isWordEdge, letter, also]

/-- Where no word is found, the pattern matches digits up to the end of a word. -/
theorem matchAt?_of_no_word (wordwise : lexicon.IsWordwise)
    (none : lexicon.vocabulary.longestWhere? (isWhole before text) text = none) :
    matchAt? true lexicon.alternatives before text =
      if !(text.takeWhile isDecimal).isEmpty &&
          isWhole before text (text.takeWhile isDecimal).length then
        some (text.takeWhile isDecimal).length
      else Option.none := by
  simp only [matchAt?, Bool.not_true, Bool.false_or]
  rw [find?_lengths_of_no_word wordwise none]
  cases count : (text.takeWhile isDecimal).length with
  | zero => simp [List.length_eq_zero_iff.1 count]
  | succ shorter =>
    have filled : (text.takeWhile isDecimal).isEmpty = false := by
      rw [List.isEmpty_eq_false_iff, ← List.length_pos_iff, count]
      exact Nat.succ_pos _
    have rest : ((List.range shorter).map (· + 1)).reverse.find? (isWhole before text) =
        Option.none := by
      rw [List.find?_eq_none]
      intro length listed
      obtain ⟨index, below, rfl⟩ := List.mem_map.1 (List.mem_reverse.1 listed)
      rw [isWhole_of_digits (Nat.succ_pos _)
        (by rw [count]; exact Nat.succ_lt_succ (List.mem_range.1 below))]
      exact Bool.false_ne_true
    rw [List.range_succ, List.map_append, List.reverse_append, List.map_singleton,
      List.reverse_singleton, List.singleton_append, List.find?_cons, rest, filled]
    cases isWhole before text (shorter + 1) <;> rfl

/-- What the scanner finds, by whole words. -/
theorem english_eq (vocabulary : Trie Char Token) :
    Lexeme.english vocabulary before previous text =
      match vocabulary.longestWhere? (isWhole before text) text with
      | some (length, found) => .token length found
      | none =>
        if !(text.takeWhile isDecimal).isEmpty &&
            isWhole before text (text.takeWhile isDecimal).length then
          Lexeme.ofToken? (text.takeWhile isDecimal).length
            (Token.explicit? (text.takeWhile isDecimal))
        else if text.head?.any isWordGap then .gap
        else .unreadable := by
  have bounds (length : Nat) : (isWordEdge before text.head? &&
      isWordEdge (text.take length).getLast? (text.drop length).head?) =
        isWhole before text length := rfl
  simp only [Lexeme.english, bounds, Bool.and_assoc]
  rw [← bounds, Bool.and_left_comm]
  rfl

theorem wordToken?_of_word (wordwise : lexicon.IsWordwise)
    (found : lexicon.vocabulary.get? word = some token) :
    Scheme.wordToken? lexicon.vocabulary word = some token := by
  obtain ⟨nonempty, letters⟩ := wordwise.letters_of_get? found
  obtain ⟨first, others, rfl⟩ := List.exists_cons_of_ne_nil nonempty
  have lettered : ¬(first :: others).all Token.isDigit = true := by
    intro digits
    rw [List.all_cons, Bool.and_eq_true] at digits
    have decimal := (Scheme.isSign (Scheme.mem_signs_of_isDigit digits.1)).decimal
    rw [(letters first List.mem_cons_self).2] at decimal
    cases decimal
  rw [Scheme.wordToken?, if_neg lettered, found]

theorem wordToken?_of_digits (wordwise : lexicon.IsWordwise) (nonempty : word ≠ [])
    (digits : ∀ c ∈ word, isDecimal c = true) :
    Scheme.wordToken? lexicon.vocabulary word = Token.explicit? word := by
  rw [Scheme.wordToken?]
  split
  · rfl
  · next wide =>
    have unwritten : Token.explicit? word = none := by
      rw [Option.eq_none_iff_forall_ne_some]
      exact fun token explicit => wide (Token.explicit?_eq_some_iff.1 explicit).2.2.1
    rw [unwritten, Option.eq_none_iff_forall_ne_some]
    intro token found
    obtain ⟨first, others, rfl⟩ := List.exists_cons_of_ne_nil nonempty
    have letter := ((wordwise.letters_of_get? found).2 first List.mem_cons_self).2
    rw [digits first List.mem_cons_self] at letter
    cases letter

/-- The pattern matches what the scanner finds a token for, or where it misses one. -/
theorem matchAt?_cases (wordwise : lexicon.IsWordwise) :
    Follows (Lexeme.english lexicon.vocabulary) true lexicon.alternatives isWordGap
      (fun _ => Scheme.wordToken? lexicon.vocabulary) := by
  intro before previous text
  beta_reduce
  rw [english_eq]
  cases found : lexicon.vocabulary.longestWhere? (isWhole before text) text with
  | some word =>
    obtain ⟨fits, stored, -⟩ := Trie.longestWhere?_eq_some_iff.1 found
    refine .inl ⟨word.1, find?_lengths_of_word wordwise found, ?_, fits, ?_⟩
    · exact Trie.pos_of_mem_starts (Trie.mem_starts_iff.2 ⟨fits, stored⟩)
    · rw [wordToken?_of_word wordwise stored]
      rfl
  | none =>
    rw [matchAt?_of_no_word wordwise found]
    split
    · next complete =>
      have nonempty : text.takeWhile isDecimal ≠ [] := by
        simpa using (Bool.and_eq_true_iff.1 complete).1
      have front : text.take (text.takeWhile isDecimal).length = text.takeWhile isDecimal :=
        (List.prefix_iff_eq_take.1 (List.takeWhile_prefix isDecimal)).symm
      refine .inl ⟨_, rfl, List.length_pos_iff.2 nonempty,
        (List.takeWhile_prefix isDecimal).length_le, ?_⟩
      rw [front, wordToken?_of_digits wordwise nonempty fun c => List.mem_takeWhile_imp]
    · exact .inr ⟨rfl, rfl⟩

section

variable {scanner : Lexeme.Scanner} {bounded : Bool} {alternatives : List (List Char)}
  {isGap : Char → Bool} {tokenOf? : Option Token → List Char → Option Token}

/-- Something else than a gap before a match, or at the end, is never forgotten. -/
theorem search_of_not_gap (solid : ¬gap.all isGap = true) :
    (readInOrder isGap tokenOf? previous (search bounded alternatives before gap text).1).filter
      (fun _ => (search bounded alternatives before gap text).2.all isGap) = none := by
  induction text generalizing before gap with
  | nil => simp [search, solid]
  | cons c rest ih =>
    rw [search]
    split
    · refine ih fun all => solid ?_
      rw [List.all_append, Bool.and_eq_true] at all
      exact all.1
    · simp [readInOrder, token?, solid]

/-- The matches of the pattern have the tokens that a scanner finds which follows it. -/
theorem search_eq_scan (follows : Follows scanner bounded alternatives isGap tokenOf?)
    (all : gap.all isGap = true) (before : Option Char) (previous : Option Token)
    (text : List Char) :
    (readInOrder isGap tokenOf? previous (search bounded alternatives before gap text).1).filter
        (fun _ => (search bounded alternatives before gap text).2.all isGap) =
      Lexeme.scan scanner before previous text := by
  induction size : text.length using Nat.strong_induction_on
    generalizing gap before previous text with
  | _ count ih =>
    cases text with
    | nil => simp [search, readInOrder, Lexeme.scan, all]
    | cons c rest =>
      rw [search, Lexeme.scan]
      rcases follows before previous (c :: rest) with
        ⟨length, found, positive, fits, lexeme⟩ | ⟨missing, lexeme⟩
      · rw [found, lexeme]
        have shorter : (rest.drop (length - 1)).length < count := by
          rw [← size, List.length_drop, List.length_cons]
          omega
        simp only [readInOrder, token?, all, if_true]
        cases known : tokenOf? previous ((c :: rest).take length) with
        | none => rfl
        | some token =>
          rw [Lexeme.ofToken?]
          simp only
          have none : ([] : List Char).all isGap = true := rfl
          rw [← ih _ shorter none _ (some token) _ rfl]
          generalize search bounded alternatives ((c :: rest).take length).getLast? []
            (rest.drop (length - 1)) = others
          rw [Option.bind_some]
          cases readInOrder isGap tokenOf? (some token) others.1 with
          | none => rfl
          | some tokens => cases others.2.all isGap <;> rfl
      · rw [missing, lexeme, List.head?_cons, Option.any_some]
        cases space : isGap c with
        | true =>
          simp only [if_true]
          exact ih _ (by rw [← size]; exact Nat.lt_succ_self _)
            (by rw [List.all_append, all, List.all_cons, space]; rfl) _ _ _ rfl
        | false =>
          simp only [Bool.false_eq_true, if_false]
          exact search_of_not_gap (by simp [space])

theorem tokensInOrder?_eq (follows : Follows scanner bounded alternatives isGap tokenOf?)
    (text : List Char) :
    tokensInOrder? bounded alternatives isGap tokenOf? text = Lexeme.tokens? scanner text := by
  have nothing : ([] : List Char).all isGap = true := rfl
  rw [Lexeme.tokens?, ← search_eq_scan follows nothing none none text, tokensInOrder?,
    Option.filter_filter]
  simp only [Bool.and_comm]

end

/-- Where the token before a match does not count, each match is read on its own. -/
theorem readInOrder_const {isGap : Char → Bool} {tokenOf? : List Char → Option Token}
    (previous : Option Token) (parts : List (List Char × List Char)) :
    readInOrder isGap (fun _ => tokenOf?) previous parts = parts.mapM (token? isGap tokenOf?) := by
  induction parts generalizing previous with
  | nil => rfl
  | cons part others ih =>
    rw [readInOrder, List.mapM_cons]
    cases token? isGap tokenOf? part with
    | none => rfl
    | some token =>
      rw [Option.bind_some, ih]
      cases others.mapM (token? isGap tokenOf?) <;> rfl

theorem tokens?_eq (wordwise : lexicon.IsWordwise) (text : List Char) :
    tokens? true lexicon.alternatives isWordGap (Scheme.wordToken? lexicon.vocabulary) text =
      Lexeme.tokens? (Lexeme.english lexicon.vocabulary) text := by
  rw [← tokensInOrder?_eq (matchAt?_cases wordwise), tokens?, tokensInOrder?, readInOrder_const]

end Alternation

end Numeral

end Phrasebook
