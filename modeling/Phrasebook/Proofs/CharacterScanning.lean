import Phrasebook.Proofs.WholeWords

/-! Chinese texts, scanned without word ends.

The pattern of the Chinese words takes them wherever they stand, and a zero after a power of
ten is no number there: it links what follows. A scanner made for Japanese finds the same
words and knows nothing of links. It also goes through digits in another way: where the
pattern takes a run of decimal digits of any script and then reads it as a whole, that scanner
ends the run before a digit that it cannot read, and finds nothing there.
-/

set_option autoImplicit false

namespace Phrasebook

open Text

namespace Numeral

/-- What may stand between the words of a Chinese numeral. -/
def isCharacterGap (c : Char) : Bool := isBlank c || c == ',' || c == '，'

/-- Whether a token is the number word zero. -/
def Token.isZero (token : Token) : Bool := token.kind == .number && token.value == 0

/-- A token after another one: a zero right after a power of ten is a linking word. -/
def Token.link (previous : Option Token) (token : Token) : Token :=
  if token.isZero && previous.any (isPowerFrom 10) then connector else token

/-- The tokens, in which the zeros after powers of ten have become linking words. -/
def linkZeros (previous : Option Token) : List Token → List Token
  | [] => []
  | token :: others => token.link previous :: linkZeros (some token) others

namespace Lexeme

def isZeroWord (word : List Char) : Bool := chineseZeros.any fun zero => word == [zero]

/-- The token of a word or of a digit string, after the token before it. -/
def linkedToken? (vocabulary : Trie Char Token) (previous : Option Token) (word : List Char) :
    Option Token :=
  if isZeroWord word && previous.any (Token.isPowerFrom 10) then some .connector
  else (vocabulary.get? word).or ((word.mapM asciiDigit?).bind Token.explicit?)

end Lexeme

/-- The signs that may link are its words for zero. -/
structure Lexicon.LinksZeros (lexicon : Lexicon) : Prop extends lexicon.IsWordwise where
  zeros : ∀ entry ∈ lexicon.entries, Lexeme.isZeroWord entry.word = entry.token.isZero

namespace Token

variable {previous other : Option Token} {token : Token}

theorem link_congr (same : previous.any (isPowerFrom 10) = other.any (isPowerFrom 10)) :
    token.link previous = token.link other := by
  rw [link, link, same]

/-- A zero is no power of ten, nor is the link that it becomes. -/
theorem isPowerFrom_link : (token.link previous).isPowerFrom 10 = token.isPowerFrom 10 := by
  rw [link]
  split
  · next linked =>
    have zero : token.value = 0 := by
      simpa [isZero] using (Bool.and_eq_true_iff.1 (Bool.and_eq_true_iff.1 linked).1).2
    simp [isPowerFrom, connector, zero]
  · rfl

theorem link_of_explicit? {digits : List Char} (written : explicit? digits = some token) :
    token.link previous = token := by
  have kind : token.kind = .explicit := by
    obtain ⟨-, -, -, -, rfl⟩ := explicit?_eq_some_iff.1 written
    rfl
  simp [link, isZero, kind]

end Token

theorem isEmpty_linkZeros (previous : Option Token) (tokens : List Token) :
    (linkZeros previous tokens).isEmpty = tokens.isEmpty := by
  cases tokens <;> rfl

namespace Lexeme

theorem isDecimal_of_asciiDigit? {c : Char} (readable : (asciiDigit? c).isSome = true) :
    isDecimal c = true := by
  rw [asciiDigit?] at readable
  split at readable
  · next digit => exact (Scheme.isSign (Scheme.mem_signs_of_isDigit digit)).decimal
  · split at readable
    · next wide =>
      rw [Bool.and_eq_true, decide_eq_true_eq, decide_eq_true_eq] at wide
      exact inRanges_iff.2 ⟨(0xFF10, 0xFF19), by decide, wide⟩
    · cases readable

theorem not_isDecimal_of_mem_chineseZeros {c : Char} (zero : c ∈ chineseZeros) :
    isDecimal c = false := by
  have checked : chineseZeros.all (fun c => !isDecimal c) = true := by decide +kernel
  simpa using List.all_eq_true.1 checked c zero

/-- The digits at the front of a text, up to one that cannot be read. -/
def digitRun (text : List Char) : List Char := text.takeWhile fun c => (asciiDigit? c).isSome

theorem asciiDigit?_of_mem_digitRun {c : Char} {text : List Char} (inside : c ∈ digitRun text) :
    (asciiDigit? c).isSome = true :=
  List.mem_takeWhile_imp (p := fun c => (asciiDigit? c).isSome) inside

theorem isDecimal_of_mem_digitRun {c : Char} {text : List Char} (inside : c ∈ digitRun text) :
    isDecimal c = true :=
  isDecimal_of_asciiDigit? (asciiDigit?_of_mem_digitRun inside)

/-- A run takes all the digits at the front of a text, or it ends before one that cannot be
read. -/
theorem digitRun_cases (text : List Char) :
    (text.takeWhile isDecimal = digitRun text ∧ ∃ rest, text = digitRun text ++ rest) ∨
      ∃ c rest, text = digitRun text ++ c :: rest ∧ isDecimal c = true ∧ asciiDigit? c = none := by
  have readable (c : Char) (inside : c ∈ digitRun text) : isDecimal c = true :=
    isDecimal_of_mem_digitRun inside
  have stops := List.head?_dropWhile_not (fun c => (asciiDigit? c).isSome) text
  have split : digitRun text ++ text.dropWhile (fun c => (asciiDigit? c).isSome) = text :=
    List.takeWhile_append_dropWhile
  generalize digitRun text = run at *
  generalize text.dropWhile (fun c => (asciiDigit? c).isSome) = rest at *
  subst split
  rw [List.takeWhile_append_of_pos readable]
  cases rest with
  | nil => exact .inl ⟨by simp, [], rfl⟩
  | cons c rest =>
    have foreign : asciiDigit? c = none := by simpa using stops
    cases decimal : isDecimal c with
    | true => exact .inr ⟨c, rest, rfl, decimal, foreign⟩
    | false => exact .inl ⟨by simp [decimal], c :: rest, rfl⟩

/-- A run of digits is read as a whole. -/
theorem mapM_digitRun (text : List Char) :
    (digitRun text).mapM asciiDigit? = some ((digitRun text).filterMap asciiDigit?) := by
  have readable (c : Char) (inside : c ∈ digitRun text) : (asciiDigit? c).isSome = true :=
    asciiDigit?_of_mem_digitRun inside
  generalize digitRun text = run at *
  induction run with
  | nil => rfl
  | cons c run ih =>
    obtain ⟨digit, ascii⟩ := Option.isSome_iff_exists.1 (readable c List.mem_cons_self)
    rw [List.mapM_cons, ascii, ih fun c member => readable c (List.mem_cons_of_mem _ member),
      List.filterMap_cons_some ascii]
    rfl

variable {lexicon : Lexicon} {before : Option Char} {previous other : Option Token} {c : Char}
  {word rest text : List Char} {token : Token}

/-- A word that is found stands at the front and has no digits. -/
theorem exists_word_of_longest? (wordwise : lexicon.IsWordwise) {length : Nat}
    (found : lexicon.vocabulary.longest? text = some (length, token)) :
    ∃ word rest, text = word ++ rest ∧ word.length = length ∧ word ≠ [] ∧
      lexicon.vocabulary.get? word = some token ∧
      ∀ c ∈ word, isWordChar c = true ∧ isDecimal c = false := by
  rw [Trie.longest?_eq_longestWhere?] at found
  obtain ⟨fits, stored, -⟩ := Trie.longestWhere?_eq_some_iff.1 found
  exact ⟨text.take length, text.drop length, (List.take_append_drop ..).symm,
    List.length_take_of_le fits, (wordwise.letters_of_get? stored).1, stored,
    (wordwise.letters_of_get? stored).2⟩

theorem longest?_of_decimal (wordwise : lexicon.IsWordwise) (decimal : isDecimal c = true) :
    lexicon.vocabulary.longest? (c :: rest) = none := by
  rw [Option.eq_none_iff_forall_ne_some]
  rintro ⟨length, token⟩ found
  obtain ⟨word, others, eq, -, nonempty, -, letters⟩ := exists_word_of_longest? wordwise found
  obtain ⟨first, more, rfl⟩ := List.exists_cons_of_ne_nil nonempty
  cases eq
  rw [(letters c List.mem_cons_self).2] at decimal
  cases decimal

/-- A word is found where no digit string can be. -/
theorem japanese_of_word (wordwise : lexicon.IsWordwise) {length : Nat}
    (found : lexicon.vocabulary.longest? text = some (length, token)) :
    japanese lexicon.vocabulary before previous text = .token length token := by
  obtain ⟨word, rest, rfl, -, nonempty, -, letters⟩ := exists_word_of_longest? wordwise found
  obtain ⟨c, others, rfl⟩ := List.exists_cons_of_ne_nil nonempty
  have solid : isBlank c = false := not_isBlank_of_isWordChar (letters c List.mem_cons_self).1
  have none : (asciiDigit? c).isSome = false := by
    rw [← Bool.not_eq_true]
    intro readable
    have decimal := isDecimal_of_asciiDigit? readable
    rw [(letters c List.mem_cons_self).2] at decimal
    cases decimal
  rw [List.cons_append] at found ⊢
  simp [japanese, found, solid, none, Token.explicit?]

/-- Where no word is found, only digits that can be read have a token. -/
theorem japanese_of_no_word (missing : lexicon.vocabulary.longest? text = none)
    (solid : text.head?.any isBlank = false) :
    japanese lexicon.vocabulary before previous text =
      ofToken? (digitRun text).length
        (Token.explicit? ((digitRun text).filterMap asciiDigit?)) := by
  simp only [japanese, missing, solid, Bool.false_eq_true, if_false, digitRun]
  generalize Token.explicit? _ = found
  cases found <;> rfl

theorem isZeroWord_eq (nonempty : word ≠ []) (rest : List Char) :
    isZeroWord word =
      (word.length == 1 && (word ++ rest).head?.any chineseZeros.contains) := by
  obtain ⟨c, others, rfl⟩ := List.exists_cons_of_ne_nil nonempty
  rw [Bool.eq_iff_iff]
  cases others <;> simp [isZeroWord, chineseZeros]

theorem linkedToken?_of_get? (links : lexicon.LinksZeros)
    (stored : lexicon.vocabulary.get? word = some token) :
    linkedToken? lexicon.vocabulary previous word = some (token.link previous) := by
  obtain ⟨entry, listed, rfl, rfl⟩ := links.get?_eq_some_iff.1 stored
  rw [linkedToken?, Token.link, links.zeros entry listed, stored, Option.some_or]
  split <;> rfl

theorem linkedToken?_of_digits (wordwise : lexicon.IsWordwise) (nonempty : word ≠ [])
    (digits : ∀ c ∈ word, isDecimal c = true) :
    linkedToken? lexicon.vocabulary previous word =
      (word.mapM asciiDigit?).bind Token.explicit? := by
  obtain ⟨c, others, rfl⟩ := List.exists_cons_of_ne_nil nonempty
  have decimal := digits c List.mem_cons_self
  have number : isZeroWord (c :: others) = false := by
    rw [isZeroWord, List.any_eq_false]
    intro zero listed same
    rw [beq_iff_eq, List.cons.injEq] at same
    rw [same.1, not_isDecimal_of_mem_chineseZeros listed] at decimal
    cases decimal
  have unknown : lexicon.vocabulary.get? (c :: others) = none := by
    rw [Option.eq_none_iff_forall_ne_some]
    intro token stored
    rw [((wordwise.letters_of_get? stored).2 c List.mem_cons_self).2] at decimal
    cases decimal
  rw [linkedToken?, number, unknown, Option.none_or]
  rfl

theorem chinese_of_word (links : lexicon.LinksZeros) {length : Nat}
    (found : lexicon.vocabulary.longest? text = some (length, token)) :
    chinese lexicon.vocabulary before previous text = .token length (token.link previous) := by
  obtain ⟨word, rest, rfl, rfl, nonempty, stored, -⟩ :=
    exists_word_of_longest? links.toIsWordwise found
  obtain ⟨entry, listed, rfl, rfl⟩ := links.get?_eq_some_iff.1 stored
  simp only [chinese, found, Token.link, ← links.zeros entry listed,
    isZeroWord_eq nonempty rest, Bool.and_assoc]

theorem chinese_of_no_word (missing : lexicon.vocabulary.longest? text = none) :
    chinese lexicon.vocabulary before previous text =
      if !(text.takeWhile isDecimal).isEmpty then
        ofToken? (text.takeWhile isDecimal).length
          (((text.takeWhile isDecimal).mapM asciiDigit?).bind Token.explicit?)
      else if text.head?.any isCharacterGap then .gap
      else .unreadable := by
  simp only [chinese, missing]
  rfl

/-- The scanner finds what the pattern of the words matches. -/
theorem chinese_follows (links : lexicon.LinksZeros) :
    Alternation.Follows (chinese lexicon.vocabulary) false lexicon.alternatives isCharacterGap
      (linkedToken? lexicon.vocabulary) := by
  intro before previous text
  have everywhere : (fun length => !false || Alternation.isWhole before text length) =
      fun _ => true := rfl
  rw [Alternation.matchAt?, everywhere]
  cases found : lexicon.vocabulary.longest? text with
  | some entry =>
    have longest := found
    rw [Trie.longest?_eq_longestWhere?] at longest
    obtain ⟨fits, stored, -⟩ := Trie.longestWhere?_eq_some_iff.1 longest
    refine .inl ⟨entry.1, Alternation.find?_lengths_of_word links.toIsWordwise longest,
      Trie.pos_of_mem_starts (Trie.mem_starts_iff.2 ⟨fits, stored⟩), fits, ?_⟩
    rw [linkedToken?_of_get? links stored, chinese_of_word links found, ofToken?]
  | none =>
    have missing := found
    rw [Trie.longest?_eq_longestWhere?] at missing
    rw [chinese_of_no_word found, Alternation.find?_lengths_of_no_word links.toIsWordwise missing]
    cases count : (text.takeWhile isDecimal).length with
    | zero => exact .inr ⟨rfl, by simp [List.length_eq_zero_iff.1 count]⟩
    | succ shorter =>
      have written : text.takeWhile isDecimal ≠ [] := List.length_pos_iff.1 (by omega)
      have front : text.take (shorter + 1) = text.takeWhile isDecimal := by
        rw [← count]
        exact (List.prefix_iff_eq_take.1 (List.takeWhile_prefix isDecimal)).symm
      have fits := (List.takeWhile_prefix isDecimal (l := text)).length_le
      refine .inl ⟨shorter + 1, by simp [List.range_succ], Nat.succ_pos _, by omega, ?_⟩
      rw [front, linkedToken?_of_digits links.toIsWordwise written
        fun c => List.mem_takeWhile_imp, if_pos (by simpa using written)]

/-- A text that goes on with a digit that cannot be read is not read. -/
theorem scan_japanese_of_foreign (wordwise : lexicon.IsWordwise) (decimal : isDecimal c = true)
    (foreign : asciiDigit? c = none) :
    scan (japanese lexicon.vocabulary) before previous (c :: rest) = none := by
  have solid : isBlank c = false := not_isBlank_of_isWordChar (isWordChar_of_isDecimal decimal)
  refine scan_of_unreadable (List.cons_ne_nil _ _) ?_
  rw [japanese_of_no_word (longest?_of_decimal wordwise decimal) solid, digitRun,
    List.takeWhile_cons_of_neg (by simp [foreign])]
  rfl

/-- Digits of which some cannot be read are not read, by whichever scanner. -/
theorem scan_of_foreign (wordwise : lexicon.IsWordwise)
    (missing : lexicon.vocabulary.longest? text = none) (solid : text.head?.any isBlank = false)
    (goesOn : text = digitRun text ++ c :: rest)
    (decimal : isDecimal c = true) (foreign : asciiDigit? c = none) (before : Option Char)
    (previous other : Option Token) :
    scan (chinese lexicon.vocabulary) before previous text = none ∧
      scan (japanese lexicon.vocabulary) before other text = none := by
  have nonempty : text ≠ [] := by
    rw [goesOn]
    exact List.append_ne_nil_of_right_ne_nil _ (List.cons_ne_nil _ _)
  have step : japanese lexicon.vocabulary before other text = _ :=
    japanese_of_no_word missing solid
  have readable (d : Char) (inside : d ∈ digitRun text) : isDecimal d = true :=
    isDecimal_of_mem_digitRun inside
  generalize digitRun text = run at *
  constructor
  · have inside : c ∈ text.takeWhile isDecimal := by
      rw [goesOn, List.takeWhile_append_of_pos readable, List.takeWhile_cons_of_pos decimal]
      simp
    refine scan_of_unreadable nonempty ?_
    rw [chinese_of_no_word missing, if_pos (by simpa using List.ne_nil_of_mem inside),
      mapM_eq_none_iff.2 ⟨c, inside, foreign⟩]
    rfl
  · cases written : Token.explicit? (run.filterMap asciiDigit?) with
    | none =>
      rw [written] at step
      exact scan_of_unreadable nonempty step
    | some token =>
      have digits : run ≠ [] := by
        rintro rfl
        cases written
      rw [written, goesOn] at step
      rw [goesOn, scan_append_of_token digits step,
        scan_japanese_of_foreign wordwise decimal foreign]
      rfl

/-- At one place, both scanners find a token of the same length or a gap, or neither of them
gets any further than to the digits there. -/
theorem steps_alike (links : lexicon.LinksZeros) (nonempty : text ≠ [])
    (commaless : text.head?.any isCharacterGap = text.head?.any isBlank) (before : Option Char)
    (previous other : Option Token) :
    (∃ word rest token, text = word ++ rest ∧ word ≠ [] ∧
      chinese lexicon.vocabulary before previous text =
        .token word.length (token.link previous) ∧
      japanese lexicon.vocabulary before other text = .token word.length token) ∨
    (chinese lexicon.vocabulary before previous text = .gap ∧
      japanese lexicon.vocabulary before other text = .gap) ∨
    (scan (chinese lexicon.vocabulary) before previous text = none ∧
      scan (japanese lexicon.vocabulary) before other text = none) := by
  cases found : lexicon.vocabulary.longest? text with
  | some entry =>
    obtain ⟨word, rest, eq, length, written, -⟩ :=
      exists_word_of_longest? links.toIsWordwise found
    refine .inl ⟨word, rest, entry.2, eq, written, ?_, ?_⟩
    · rw [chinese_of_word links found, length]
    · rw [japanese_of_word links.toIsWordwise found, length]
  | none =>
    have left : chinese lexicon.vocabulary before previous text = _ := chinese_of_no_word found
    rw [commaless] at left
    cases blank : text.head?.any isBlank with
    | true =>
      obtain ⟨c, rest, rfl⟩ := List.exists_cons_of_ne_nil nonempty
      have space : isBlank c = true := blank
      have gap : isWordGap c = true := by simp [isWordGap, space]
      refine .inr (.inl ⟨?_, by simp [japanese, space]⟩)
      rw [left, List.takeWhile_cons_of_neg (by simp [not_isDecimal_of_isWordGap gap]), blank]
      rfl
    | false =>
      have right : japanese lexicon.vocabulary before other text = _ :=
        japanese_of_no_word found blank
      rcases digitRun_cases text with ⟨all, rest, eq⟩ | ⟨c, rest, goesOn, decimal, foreign⟩
      · rw [all, mapM_digitRun, Option.bind_some, blank] at left
        generalize digitRun text = run at *
        cases written : Token.explicit? (run.filterMap asciiDigit?) with
        | some token =>
          have digits : run ≠ [] := by
            rintro rfl
            cases written
          rw [written] at left right
          refine .inl ⟨run, rest, token, eq, digits, ?_, right⟩
          rw [left, if_pos (by simpa using digits), Token.link_of_explicit? written]
          rfl
        | none =>
          rw [written] at left right
          refine .inr (.inr ⟨scan_of_unreadable nonempty ?_, scan_of_unreadable nonempty right⟩)
          rw [left]
          split <;> rfl
      · exact .inr (.inr
          (scan_of_foreign links.toIsWordwise found blank goesOn decimal foreign before _ _))

/-- Away from commas, a scan for Chinese finds the tokens of one for Japanese, and the links. -/
theorem scan_chinese (links : lexicon.LinksZeros)
    (commaless : ∀ c ∈ text, isCharacterGap c = isBlank c)
    (same : previous.any (Token.isPowerFrom 10) = other.any (Token.isPowerFrom 10))
    (before : Option Char) :
    scan (chinese lexicon.vocabulary) before previous text =
      (scan (japanese lexicon.vocabulary) before other text).map (linkZeros other) := by
  -- The tokens before a place may differ by a link, but not in which of them are powers of ten.
  induction size : text.length using Nat.strong_induction_on
    generalizing before previous other text with
  | _ count ih =>
    cases text with
    | nil => simp [scan, linkZeros]
    | cons c rest =>
      rcases steps_alike links (List.cons_ne_nil c rest)
          (by simpa using commaless c List.mem_cons_self) before previous other with
        ⟨word, others, token, eq, nonempty, left, right⟩ | ⟨left, right⟩ | ⟨left, right⟩
      · rw [eq] at left right commaless size ⊢
        have positive := List.length_pos_iff.2 nonempty
        have shorter : others.length < count := by
          rw [← size, List.length_append]
          omega
        have after : (some (token.link previous)).any (Token.isPowerFrom 10) =
            (some token).any (Token.isPowerFrom 10) := Token.isPowerFrom_link
        rw [scan_append_of_token nonempty left, scan_append_of_token nonempty right,
          ih _ shorter (fun d member => commaless d (List.mem_append_right _ member)) after _ rfl,
          Option.map_map, Option.map_map, Token.link_congr same]
        rfl
      · rw [scan_cons_of_gap left, scan_cons_of_gap right]
        exact ih _ (by rw [← size]; exact Nat.lt_succ_self _)
          (fun d member => commaless d (List.mem_cons_of_mem _ member)) same _ rfl
      · rw [left, right, Option.map_none]

end Lexeme

theorem Lexicon.linksZeros_chinese : chinese.LinksZeros := by
  have checked : chinese.entries.all (fun entry =>
      Lexeme.isZeroWord entry.word == entry.token.isZero) = true := by
    decide +kernel
  refine ⟨isWordwise_of_checked ?_, fun entry listed =>
    beq_iff_eq.1 (List.all_eq_true.1 checked entry listed)⟩
  simp only [Lexicon.vocabulary, chinese, ofWords, Entry.number, String.reduceToList,
    List.map_cons, List.map_nil, List.append_nil]
  decide +kernel

/-- The pattern of the Chinese words finds in a text what a scanner made for Japanese finds,
but for the zeros after powers of ten. -/
theorem tokenize_chinese_eq_linkZeros (text : List Char) :
    Scheme.chinese.tokenize Lexicon.chinese.vocabulary text =
        Alternation.tokensInOrder? false Lexicon.chinese.alternatives isCharacterGap
          (Lexeme.linkedToken? Lexicon.chinese.vocabulary) text ∧
      (',' ∉ text → '，' ∉ text →
        Scheme.chinese.tokenize Lexicon.chinese.vocabulary text =
          (Scheme.japanese.tokenize Lexicon.chinese.vocabulary text).map (linkZeros none)) := by
  refine ⟨(Alternation.tokensInOrder?_eq
    (Lexeme.chinese_follows Lexicon.linksZeros_chinese) text).symm, fun narrow wide => ?_⟩
  have commaless : ∀ c ∈ text, isCharacterGap c = isBlank c := by
    intro c member
    have narrower : c ≠ ',' := fun same => narrow (same ▸ member)
    have wider : c ≠ '，' := fun same => wide (same ▸ member)
    rw [isCharacterGap, beq_false_of_ne narrower, beq_false_of_ne wider, Bool.or_false,
      Bool.or_false]
  rw [Scheme.tokenize, Scheme.tokenize, Lexeme.tokens?, Lexeme.tokens?,
    Lexeme.scan_chinese Lexicon.linksZeros_chinese commaless rfl]
  cases Lexeme.scan (Lexeme.japanese Lexicon.chinese.vocabulary) none none text with
  | none => rfl
  | some tokens =>
    rw [Option.map_some, Option.filter_some, Option.filter_some, isEmpty_linkZeros]
    cases tokens.isEmpty <;> rfl

/-- A zero that stands alone, one that links, and a wide digit. -/
theorem tokenize_chinese_one_thousand_five :
    ',' ∉ "零 一千零５".toList ∧ '，' ∉ "零 一千零５".toList ∧
      Scheme.japanese.tokenize Lexicon.chinese.vocabulary "零 一千零５".toList =
        some [.number 0, .number 1, .number 1000, .number 0, .written ['5']] ∧
      Scheme.chinese.tokenize Lexicon.chinese.vocabulary "零 一千零５".toList =
        some [.number 0, .number 1, .number 1000, .connector, .written ['5']] := by
  have narrow : ',' ∉ "零 一千零５".toList := by decide
  have wide : '，' ∉ "零 一千零５".toList := by decide
  have numbers : Scheme.japanese.tokenize Lexicon.chinese.vocabulary "零 一千零５".toList =
      some [.number 0, .number 1, .number 1000, .number 0, .written ['5']] := by
    decide +kernel
  refine ⟨narrow, wide, numbers, ?_⟩
  rw [(tokenize_chinese_eq_linkZeros _).2 narrow wide, numbers]
  decide +kernel

end Numeral

end Phrasebook
