import Phrasebook.Proofs.Segmentation
import Phrasebook.Proofs.WordAlternation

/-! English and Spanish texts as whole words.

A text that is matched with the pattern of a lexicon, scanned for its longest words or split
at its gaps has the same tokens. A match begins and ends with a word character, so that in a
text that is read it has a gap, or an end of the text, on both sides.
-/

set_option autoImplicit false

namespace Phrasebook

open Text

namespace Numeral

namespace Lexicon.IsWordwise

variable {lexicon : Lexicon} (wordwise : lexicon.IsWordwise) {word rest : List Char}
  {token : Token} {before : Option Char} {previous : Option Token} {c : Char} {length : Nat}

include wordwise

theorem wordToken?_eq_some_iff : Scheme.wordToken? lexicon.vocabulary word = some token ↔
    (∃ entry ∈ lexicon.entries, entry.word = word ∧ entry.token = token) ∨
      Token.explicit? word = some token := by
  rw [← wordwise.get?_eq_some_iff]
  constructor
  · intro known
    rw [Scheme.wordToken?] at known
    split at known
    · exact .inr known
    · exact .inl known
  · rintro (stored | explicit)
    · exact Alternation.wordToken?_of_word wordwise stored
    · rw [Scheme.wordToken?, if_pos (Token.explicit?_eq_some_iff.1 explicit).2.2.1, explicit]

theorem letters_of_wordToken? (known : Scheme.wordToken? lexicon.vocabulary word = some token) :
    word ≠ [] ∧ ∀ c ∈ word, isWordChar c = true := by
  rcases wordwise.wordToken?_eq_some_iff.1 known with stored | explicit
  · obtain ⟨nonempty, letters⟩ :=
      wordwise.letters_of_get? (wordwise.get?_eq_some_iff.2 stored)
    exact ⟨nonempty, fun c member => (letters c member).1⟩
  · obtain ⟨nonempty, -, digits, -⟩ := Token.explicit?_eq_some_iff.1 explicit
    refine ⟨nonempty, fun c member => ?_⟩
    exact (Scheme.isSign (Scheme.mem_signs_of_isDigit (List.all_eq_true.1 digits c member))).word

end Lexicon.IsWordwise

namespace Alternation

variable {lexicon : Lexicon} {before : Option Char} {previous : Option Token} {c : Char}
  {text word rest : List Char} {length : Nat} {token : Token}

/-- The pattern matches word characters only. -/
theorem letters_of_matchAt? (wordwise : lexicon.IsWordwise)
    (found : matchAt? true lexicon.alternatives before text = some length) :
    ∀ c ∈ text.take length, isWordChar c = true := by
  rcases List.mem_append.1 (List.mem_of_find?_eq_some found) with listed | listed
  · obtain ⟨other, member, rfl⟩ := List.mem_map.1 listed
    obtain ⟨present, starts⟩ := List.mem_filter.1 member
    rw [List.isPrefixOf_iff_prefix] at starts
    obtain ⟨token, known⟩ := Option.isSome_iff_exists.1 (wordwise.mem_alternatives_iff.1 present)
    rw [← List.prefix_iff_eq_take.1 starts]
    exact fun c inside => ((wordwise.letters_of_get? known).2 c inside).1
  · obtain ⟨index, below, rfl⟩ := List.mem_map.1 (List.mem_reverse.1 listed)
    rw [List.mem_range] at below
    have front : text.take (index + 1) <+: text.takeWhile isDecimal := by
      rw [List.prefix_iff_eq_take.1 (List.takeWhile_prefix isDecimal (l := text))]
      exact List.take_prefix_take_left (by omega)
    exact fun c inside => isWordChar_of_isDecimal (List.mem_takeWhile_imp (front.mem inside))

/-- A word that can be read is among the alternatives, up to a gap. -/
theorem mem_lengths (wordwise : lexicon.IsWordwise)
    (known : Scheme.wordToken? lexicon.vocabulary word = some token)
    (apart : ∀ c ∈ rest.head?, isWordGap c = true) :
    word.length ∈ lengths lexicon.alternatives (word ++ rest) := by
  rcases wordwise.wordToken?_eq_some_iff.1 known with stored | explicit
  · refine List.mem_append_left _ (List.mem_map.2 ⟨word, List.mem_filter.2 ⟨?_, ?_⟩, rfl⟩)
    · rw [wordwise.mem_alternatives_iff, wordwise.get?_eq_some_iff.2 stored]
      rfl
    · rw [List.isPrefixOf_iff_prefix]
      exact List.prefix_append _ _
  · obtain ⟨nonempty, -, digits, -⟩ := Token.explicit?_eq_some_iff.1 explicit
    have stops : rest.takeWhile isDecimal = [] := by
      cases rest with
      | nil => rfl
      | cons c rest =>
        rw [List.takeWhile_cons_of_neg (by simp [not_isDecimal_of_isWordGap (apart c rfl)])]
    have decimals : (word ++ rest).takeWhile isDecimal = word := by
      rw [List.takeWhile_append_of_pos fun c member => (Scheme.isSign
        (Scheme.mem_signs_of_isDigit (List.all_eq_true.1 digits c member))).decimal, stops,
        List.append_nil]
    have positive := List.length_pos_iff.2 nonempty
    refine List.mem_append_right _ (List.mem_reverse.2 (List.mem_map.2 ⟨word.length - 1, ?_, ?_⟩))
    · rw [decimals, List.mem_range]
      omega
    · omega

/-- Nothing is matched at a character that is in no word. -/
theorem matchAt?_of_not_isWordChar (wordwise : lexicon.IsWordwise)
    (outside : isWordChar c = false) :
    matchAt? true lexicon.alternatives before (c :: rest) = none := by
  rcases matchAt?_cases wordwise before none (c :: rest) with ⟨length, found, positive, -⟩ | missing
  · have inside : c ∈ (c :: rest).take length := by
      obtain ⟨more, rfl⟩ := Nat.exists_eq_add_of_lt positive
      rw [Nat.zero_add, List.take_succ_cons]
      exact List.mem_cons_self
    rw [letters_of_matchAt? wordwise found c inside] at outside
    cases outside
  · exact missing.1

/-- A text that goes on with another character than a gap or one of a word is not read. -/
theorem scan_of_not_isWordChar (wordwise : lexicon.IsWordwise) (outside : isWordChar c = false)
    (solid : isWordGap c = false) :
    Lexeme.scan (Lexeme.english lexicon.vocabulary) before previous (c :: rest) = none := by
  refine Lexeme.scan_of_unreadable (List.cons_ne_nil _ _) ?_
  rcases matchAt?_cases wordwise before previous (c :: rest) with ⟨length, found, -⟩ | missing
  · rw [matchAt?_of_not_isWordChar wordwise outside] at found
    cases found
  · rw [missing.2, List.head?_cons, Option.any_some, solid]
    rfl

/-- Between gaps, a word that can be read is matched as a whole. -/
theorem isWhole_word (wordwise : lexicon.IsWordwise)
    (known : Scheme.wordToken? lexicon.vocabulary word = some token)
    (outside : before.any isWordChar = false) (apart : ∀ c ∈ rest.head?, isWordGap c = true) :
    isWhole before (word ++ rest) word.length = true := by
  obtain ⟨nonempty, letters⟩ := wordwise.letters_of_wordToken? known
  rw [isWhole, List.take_left, List.drop_left, English.isWordEdge_start letters nonempty outside,
    English.isWordEdge_end letters nonempty apart]
  rfl

/-- A word with a character that is in no word of the lexicon cannot be read. -/
theorem wordToken?_eq_none (wordwise : lexicon.IsWordwise) (inside : c ∈ word)
    (other : isWordChar c = false) : Scheme.wordToken? lexicon.vocabulary word = none := by
  rw [Option.eq_none_iff_forall_ne_some]
  intro token known
  have letter := (wordwise.letters_of_wordToken? known).2 c inside
  rw [other] at letter
  cases letter

/-- A match does not go on into a gap. -/
theorem length_le_of_matchAt? (wordwise : lexicon.IsWordwise)
    (found : matchAt? true lexicon.alternatives before (word ++ rest) = some length)
    (fits : length ≤ (word ++ rest).length) (apart : ∀ c ∈ rest.head?, isWordGap c = true) :
    length ≤ word.length := by
  rw [← Nat.not_lt]
  intro exceeds
  obtain ⟨more, rfl⟩ := Nat.exists_eq_add_of_lt exceeds
  cases rest with
  | nil =>
    rw [List.append_nil] at fits
    omega
  | cons c rest =>
    have letter := letters_of_matchAt? wordwise found c
      (by rw [Nat.add_assoc, List.take_length_add_append]; simp)
    rw [not_isWordChar_of_isWordGap (apart c rfl)] at letter
    cases letter

/-- Where a match ends, a word ends. -/
theorem not_isWordChar_of_matchAt? (wordwise : lexicon.IsWordwise) {front more : List Char}
    (written : front ≠ [])
    (found : matchAt? true lexicon.alternatives before (front ++ c :: more) = some front.length) :
    isWordChar c = false := by
  have letters := letters_of_matchAt? wordwise found
  have whole : isWhole before (front ++ c :: more) front.length = true := by
    simpa using List.find?_some found
  rw [List.take_left] at letters
  rw [isWhole, List.take_left, List.drop_left, List.head?_cons,
    List.getLast?_eq_some_getLast written, Bool.and_eq_true] at whole
  simpa [isWordEdge, letters _ (List.getLast_mem written)] using whole.2

/-- What is matched is read, and the text goes on after it. -/
theorem scan_of_match {front : List Char} (written : front ≠ [])
    (lexeme : Lexeme.english lexicon.vocabulary before previous (front ++ rest) =
      Lexeme.ofToken? front.length (Scheme.wordToken? lexicon.vocabulary front)) :
    Lexeme.scan (Lexeme.english lexicon.vocabulary) before previous (front ++ rest) =
      (Scheme.wordToken? lexicon.vocabulary front).bind fun token =>
        (Lexeme.scan (Lexeme.english lexicon.vocabulary) front.getLast? (some token) rest).map
          (token :: ·) := by
  cases known : Scheme.wordToken? lexicon.vocabulary front with
  | none =>
    rw [known] at lexeme
    exact Lexeme.scan_of_unreadable (List.append_ne_nil_of_left_ne_nil written _) lexeme
  | some token =>
    rw [known] at lexeme
    exact Lexeme.scan_append_of_token written lexeme

/-- A word between gaps is read as a whole, or the text is not read. -/
theorem scan_word (wordwise : lexicon.IsWordwise) (nonempty : word ≠ [])
    (solid : ∀ c ∈ word, isWordGap c = false) (outside : before.any isWordChar = false)
    (apart : ∀ c ∈ rest.head?, isWordGap c = true) :
    Lexeme.scan (Lexeme.english lexicon.vocabulary) before previous (word ++ rest) =
      (Scheme.wordToken? lexicon.vocabulary word).bind fun token =>
        (Lexeme.scan (Lexeme.english lexicon.vocabulary) word.getLast? (some token) rest).map
          (token :: ·) := by
  rcases matchAt?_cases wordwise before previous (word ++ rest) with
    ⟨length, found, positive, fits, lexeme⟩ | ⟨missing, lexeme⟩
  · have short := length_le_of_matchAt? wordwise found fits apart
    rw [List.take_append_of_le_length short] at lexeme
    rcases Nat.lt_or_eq_of_le short with inside | rfl
    · -- The match ends before a character of no word, where nothing goes on.
      obtain ⟨front, c, more, rfl, rfl⟩ : ∃ front c more, word = front ++ c :: more ∧
          front.length = length := by
        obtain ⟨c, more, after⟩ := List.exists_cons_of_ne_nil
          (show word.drop length ≠ [] by simpa using inside)
        exact ⟨word.take length, c, more, by rw [← after, List.take_append_drop],
          List.length_take_of_le short⟩
      have written : front ≠ [] := List.length_pos_iff.1 positive
      rw [List.append_assoc, List.cons_append] at found
      have ends := not_isWordChar_of_matchAt? wordwise written found
      rw [List.take_left, List.append_assoc, List.cons_append] at lexeme
      rw [wordToken?_eq_none wordwise (by simp) ends, Option.bind_none, List.append_assoc,
        List.cons_append, scan_of_match written lexeme]
      simp only [scan_of_not_isWordChar wordwise ends (solid c (by simp)), Option.map_none,
        Option.bind_fun_none]
    · rw [List.take_length] at lexeme
      exact scan_of_match nonempty lexeme
  · -- Nothing is matched, and so the word cannot be read.
    have unknown : Scheme.wordToken? lexicon.vocabulary word = none := by
      rw [Option.eq_none_iff_forall_ne_some]
      intro token known
      have refused := List.find?_eq_none.1 missing _ (mem_lengths wordwise known apart)
      rw [isWhole_word wordwise known outside apart] at refused
      exact refused rfl
    obtain ⟨c, others, rfl⟩ := List.exists_cons_of_ne_nil nonempty
    rw [List.cons_append, List.head?_cons, Option.any_some, solid c List.mem_cons_self] at lexeme
    rw [unknown, List.cons_append, Lexeme.scan_of_unreadable (List.cons_ne_nil _ _) lexeme]
    rfl

theorem english_gap (wordwise : lexicon.IsWordwise) (gap : isWordGap c = true) :
    Lexeme.english lexicon.vocabulary before previous (c :: rest) = .gap := by
  rcases matchAt?_cases wordwise before previous (c :: rest) with ⟨length, found, -⟩ | missing
  · rw [matchAt?_of_not_isWordChar wordwise (not_isWordChar_of_isWordGap gap)] at found
    cases found
  · rw [missing.2, List.head?_cons, Option.any_some, if_pos gap]

/-- A text that does not start with a gap starts with a word. -/
theorem exists_word_append (solid : isWordGap c = false) (rest : List Char) :
    ∃ word others, c :: rest = word ++ others ∧ word ≠ [] ∧
      (∀ d ∈ word, isWordGap d = false) ∧ ∀ d ∈ others.head?, isWordGap d = true := by
  refine ⟨(c :: rest).takeWhile fun d => !isWordGap d, (c :: rest).dropWhile fun d => !isWordGap d,
    List.takeWhile_append_dropWhile.symm, by simp [solid],
    fun d inside => by simpa using List.mem_takeWhile_imp inside, fun d ahead => ?_⟩
  have stops := List.head?_dropWhile_not (fun d => !isWordGap d) (c :: rest)
  rw [Option.mem_def.1 ahead] at stops
  simpa using stops

/-- A scan reads the words between the gaps one by one. -/
theorem scan_eq_mapM (wordwise : lexicon.IsWordwise) (outside : before.any isWordChar = false)
    (previous : Option Token) (text : List Char) :
    Lexeme.scan (Lexeme.english lexicon.vocabulary) before previous text =
      (words isWordGap text).mapM (Scheme.wordToken? lexicon.vocabulary) := by
  induction size : text.length using Nat.strong_induction_on generalizing before previous text with
  | _ count ih =>
    have onward {c : Char} {rest : List Char} (gap : isWordGap c = true)
        (shorter : rest.length < count) (before : Option Char) (previous : Option Token) :
        Lexeme.scan (Lexeme.english lexicon.vocabulary) before previous (c :: rest) =
          (words isWordGap (c :: rest)).mapM (Scheme.wordToken? lexicon.vocabulary) := by
      rw [Lexeme.scan_cons_of_gap (english_gap wordwise gap), words_cons_of_gap gap]
      have outside : (some c).any isWordChar = false := not_isWordChar_of_isWordGap gap
      exact ih _ shorter outside previous _ rfl
    cases text with
    | nil => rw [Lexeme.scan]; rfl
    | cons c rest =>
      cases space : isWordGap c with
      | true => exact onward space (by rw [← size]; exact Nat.lt_succ_self _) before previous
      | false =>
        obtain ⟨word, others, eq, nonempty, solid, apart⟩ := exists_word_append space rest
        rw [eq, scan_word wordwise nonempty solid outside apart,
          words_append_of_apart nonempty solid apart, List.mapM_cons]
        have further (previous : Option Token) :
            Lexeme.scan (Lexeme.english lexicon.vocabulary) word.getLast? previous others =
              (words isWordGap others).mapM (Scheme.wordToken? lexicon.vocabulary) := by
          cases others with
          | nil => rw [Lexeme.scan]; rfl
          | cons d others =>
            refine onward (apart d rfl) ?_ _ previous
            have positive := List.length_pos_iff.2 nonempty
            rw [← size, eq, List.length_append, List.length_cons]
            omega
        cases Scheme.wordToken? lexicon.vocabulary word with
        | none => rfl
        | some token =>
          rw [Option.bind_some, further]
          cases (words isWordGap others).mapM (Scheme.wordToken? lexicon.vocabulary) <;> rfl

end Alternation

namespace Lexicon

theorem isWordwise_of_checked {lexicon : Lexicon}
    (checked : lexicon.entries.all (fun entry =>
      decide (lexicon.vocabulary.get? entry.word = some entry.token) &&
        entry.word.all fun c => isWordChar c && !isDecimal c) = true) : lexicon.IsWordwise := by
  simp only [List.all_eq_true, Bool.and_eq_true, decide_eq_true_eq, Bool.not_eq_true'] at checked
  exact ⟨fun entry listed => (checked entry listed).1, fun entry listed => (checked entry listed).2⟩

theorem isWordwise_english : english.IsWordwise := by
  apply isWordwise_of_checked
  simp only [Lexicon.vocabulary, english, ofWords, Entry.number, Entry.connector,
    String.reduceToList, List.map_cons, List.map_nil, List.cons_append, List.nil_append]
  decide +kernel

theorem isWordwise_spanish : spanish.IsWordwise := by
  apply isWordwise_of_checked
  simp only [Lexicon.vocabulary, spanish, ofWords, Entry.number, Entry.connector,
    String.reduceToList, List.map_cons, List.map_nil, List.cons_append, List.nil_append]
  decide +kernel

end Lexicon

/-- In English the pattern of a lexicon finds the tokens of the words between gaps, as they are
found in Spanish by splitting the text there. -/
theorem tokenize_whole_words {lexicon : Lexicon}
    (builtIn : lexicon = .english ∨ lexicon = .spanish) (text : List Char) :
    Scheme.english.tokenize lexicon.vocabulary text =
        Alternation.tokens? true lexicon.alternatives isWordGap
          (Scheme.wordToken? lexicon.vocabulary) (lower text) ∧
      Scheme.english.tokenize lexicon.vocabulary text =
        Scheme.spanish.tokenize lexicon.vocabulary text ∧
      (∀ tokens, Scheme.english.tokenize lexicon.vocabulary text = some tokens ↔
        words isWordGap (lower text) ≠ [] ∧
          List.Forall₂ (fun word token =>
            (∃ entry ∈ lexicon.entries, entry.word = word ∧ entry.token = token) ∨
              Token.explicit? word = some token) (words isWordGap (lower text)) tokens) ∧
      (Scheme.english.tokenize lexicon.vocabulary text = none ↔
        words isWordGap (lower text) = [] ∨ ∃ word ∈ words isWordGap (lower text),
          (∀ entry ∈ lexicon.entries, entry.word ≠ word) ∧ Token.explicit? word = none) := by
  have wordwise : lexicon.IsWordwise := by
    rcases builtIn with rfl | rfl
    · exact Lexicon.isWordwise_english
    · exact Lexicon.isWordwise_spanish
  have read : Scheme.english.tokenize lexicon.vocabulary text =
      ((words isWordGap (lower text)).mapM (Scheme.wordToken? lexicon.vocabulary)).filter
        fun tokens => !tokens.isEmpty := by
    rw [Scheme.tokenize, Lexeme.tokens?, Alternation.scan_eq_mapM wordwise rfl]
  refine ⟨(Alternation.tokens?_eq wordwise _).symm, ?_, ?_, ?_⟩
  · rw [read, ← funext Spanish.isSpanishGap_eq]
    rfl
  · intro tokens
    rw [read, Option.filter_eq_some_iff, mapM_eq_some_iff]
    simp only [wordwise.wordToken?_eq_some_iff]
    rw [and_comm]
    refine and_congr_left fun related => ?_
    have lengths := related.length_eq
    simp [← List.length_eq_zero_iff, lengths]
  · have unread (word : List Char) : Scheme.wordToken? lexicon.vocabulary word = none ↔
        (∀ entry ∈ lexicon.entries, entry.word ≠ word) ∧ Token.explicit? word = none := by
      simp only [Option.eq_none_iff_forall_ne_some, ne_eq, wordwise.wordToken?_eq_some_iff]
      grind
    simp only [← unread, ← mapM_eq_none_iff]
    rw [read]
    cases looked : (words isWordGap (lower text)).mapM (Scheme.wordToken? lexicon.vocabulary) with
    | none => simp
    | some tokens =>
      have lengths := (mapM_eq_some_iff.1 looked).length_eq
      simp [Option.filter_some, ← List.length_eq_zero_iff, lengths]

/-- Words, a digit string and gaps; and a full stop that is none. -/
theorem tokenize_forty_two :
    Scheme.english.tokenize Lexicon.english.vocabulary "Forty-TWO, 007".toList =
        Scheme.spanish.tokenize Lexicon.english.vocabulary "Forty-TWO, 007".toList ∧
      Scheme.english.tokenize Lexicon.english.vocabulary "Forty-TWO, 007".toList =
        some [.number 40, .number 2, .written "007".toList] ∧
      Scheme.english.tokenize Lexicon.english.vocabulary "forty-two.".toList = none := by
  have split : words isWordGap (lower "Forty-TWO, 007".toList) =
      ["forty".toList, "two".toList, "007".toList] := by
    decide +kernel
  have stopped : "two.".toList ∈ words isWordGap (lower "forty-two.".toList) := by decide +kernel
  refine ⟨(tokenize_whole_words (.inl rfl) _).2.1,
    ((tokenize_whole_words (.inl rfl) _).2.2.1 _).2 ?_,
    (tokenize_whole_words (.inl rfl) _).2.2.2.2
      (.inr ⟨_, stopped, by decide +kernel, by decide +kernel⟩)⟩
  rw [split]
  exact ⟨by simp, .cons (.inl (by decide +kernel)) (.cons (.inl (by decide +kernel))
    (.cons (.inr (by decide +kernel)) .nil))⟩

end Numeral

end Phrasebook
