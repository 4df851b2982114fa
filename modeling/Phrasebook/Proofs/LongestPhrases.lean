import Phrasebook.Proofs.DigitPlaces
import Phrasebook.Proofs.DigitSequences
import Phrasebook.Proofs.FrenchSpelling

/-! French texts as longest phrases.

A normalized text is read from the left: each time the longest phrase of the lexicon that
ends where a word ends is taken, or else a digit string. What has been taken is never given
back. Since every word of a phrase is an entry by itself, nothing is lost by that: a text is
read as soon as each of its words can be.
-/

set_option autoImplicit false

namespace Phrasebook

open Text

namespace Numeral.French

/-- A word that can be read on its own. -/
def IsReadable (word : List Char) : Prop :=
  (∃ entry ∈ Lexicon.french.entries, entry.word = word) ∨ (Token.explicit? word).isSome = true

/-- Words that are an entry of the lexicon, with single spaces between them. -/
def IsPhrase (parts : List (List Char)) (token : Token) : Prop :=
  ∃ entry ∈ Lexicon.french.entries, entry.word = [' '].intercalate parts ∧ entry.token = token

/-- Words that are taken together in front of the words that follow them. -/
inductive Takes (rest : List (List Char)) : List (List Char) → Token → Prop where
  | phrase {parts : List (List Char)} {token : Token} : parts ≠ [] → IsPhrase parts token →
      (∀ more, more ≠ [] → more <+: rest → ∀ other, ¬IsPhrase (parts ++ more) other) →
      Takes rest parts token
  | digits {word : List Char} {token : Token} : Token.explicit? word = some token →
      Takes rest [word] token

/-- The split of some words, from the left, into longest phrases and digit strings. -/
inductive LongestSplit : List (List Char) → List Token → Prop where
  | nil : LongestSplit [] []
  | cons {first rest : List (List Char)} {token : Token} {tokens : List Token} :
      Takes rest first token → LongestSplit rest tokens →
      LongestSplit (first ++ rest) (token :: tokens)

/-- A nonempty word without spaces. -/
def IsUnspaced (word : List Char) : Prop := word ≠ [] ∧ ∀ c ∈ word, (c == ' ') = false

/-- What the words after a word add to a text. -/
def onwards (others : List (List Char)) : List Char := others.flatMap ([' '] ++ ·)

theorem onwards_cons (word : List Char) (others : List (List Char)) :
    onwards (word :: others) = ' ' :: [' '].intercalate (word :: others) := by
  rw [intercalate_cons]
  rfl

variable {parts first rest others : List (List Char)} {word : List Char} {token : Token}
  {tokens : List Token} {before : Option Char} {previous : Option Token}

theorem intercalate_append (nonempty : first ≠ [])
    (rest : List (List Char)) :
    [' '].intercalate (first ++ rest) = [' '].intercalate first ++ onwards rest := by
  obtain ⟨word, others, rfl⟩ := List.exists_cons_of_ne_nil nonempty
  rw [List.cons_append, intercalate_cons, intercalate_cons, onwards, List.flatMap_append,
    List.append_assoc]

theorem spaced_onwards (others : List (List Char)) : DigitItem.Spaced (onwards others) := by
  cases others with
  | nil => rintro c ⟨⟩
  | cons word others =>
    rintro c ⟨⟩
    rfl

theorem head?_intercalate (unspaced : IsUnspaced word)
    (others : List (List Char)) :
    ∃ c, ([' '].intercalate (word :: others)).head? = some c ∧ c ∈ word ∧ (c == ' ') = false := by
  obtain ⟨first, letters, rfl⟩ := List.exists_cons_of_ne_nil unspaced.1
  rw [intercalate_cons]
  exact ⟨first, rfl, List.mem_cons_self, unspaced.2 first List.mem_cons_self⟩

theorem intercalate_ne_nil (nonempty : parts ≠ []) (unspaced : ∀ part ∈ parts, IsUnspaced part) :
    [' '].intercalate parts ≠ [] := by
  obtain ⟨word, others, rfl⟩ := List.exists_cons_of_ne_nil nonempty
  obtain ⟨c, head, -⟩ := head?_intercalate (unspaced word List.mem_cons_self) others
  intro nothing
  rw [nothing] at head
  cases head

/-- A front of a text that ends where a word ends is made of whole words. -/
theorem exists_of_append_eq {front back word : List Char} {others : List (List Char)}
    (unspaced : ∀ part ∈ word :: others, IsUnspaced part) (nonempty : front ≠ [])
    (ends : back.head?.all (· == ' ') = true)
    (split : front ++ back = [' '].intercalate (word :: others)) :
    ∃ more rest, others = more ++ rest ∧ front = [' '].intercalate (word :: more) ∧
      back = onwards rest := by
  obtain ⟨⟨_, letters⟩, later⟩ := List.forall_mem_cons.1 unspaced
  rw [intercalate_cons] at split
  -- The front cannot end inside the first word, where no space follows.
  have whole : ∃ extra, front = word ++ extra ∧ onwards others = extra ++ back := by
    rcases List.append_eq_append_iff.1 split with ⟨cut, eq, after⟩ | ⟨extra, eq, after⟩
    · cases cut with
      | nil => exact ⟨[], by simpa using eq.symm, after.symm⟩
      | cons c cut =>
        have inside := letters c (by rw [eq]; simp)
        rw [after, List.cons_append, List.head?_cons, Option.all_some, inside] at ends
        cases ends
    · exact ⟨extra, eq, after⟩
  obtain ⟨extra, rfl, after⟩ := whole
  cases extra with
  | nil => exact ⟨[], others, rfl, by simp, after.symm⟩
  | cons space extra =>
    cases others with
    | nil => cases after
    | cons next others =>
      rw [onwards_cons, List.cons_append] at after
      obtain ⟨same, further⟩ := List.cons.inj after
      subst same
      have filled : extra ≠ [] := by
        rintro rfl
        obtain ⟨c, head, -, solid⟩ := head?_intercalate (later next List.mem_cons_self) others
        rw [further, List.nil_append] at head
        rw [head, Option.all_some, solid] at ends
        cases ends
      obtain ⟨more, rest, rfl, rfl, rfl⟩ := exists_of_append_eq later filled ends further.symm
      exact ⟨next :: more, rest, rfl, by rw [List.intercalate_cons_cons]; simp, rfl⟩

/-- Each entry is stored with its token, and each of its words is an entry by itself. -/
theorem entries_checked : Lexicon.french.entries.all (fun entry =>
    decide (vocabulary.get? entry.word = some entry.token) &&
      (words (· == ' ') entry.word).all fun word =>
        Lexicon.french.entries.any fun other => decide (other.word = word)) = true := by
  -- The strings become characters first, which is slow when it is left to the kernel.
  simp only [vocabulary, Lexicon.vocabulary, Lexicon.french, Lexicon.ofWords,
    Lexicon.French.compounds, Lexicon.French.onBase, Lexicon.French.simple, Lexicon.French.units,
    Lexicon.French.teens, Lexicon.French.tens, Lexicon.French.highUnits, Entry.number,
    Entry.connector, String.toList_append, String.reduceToList, List.map_cons, List.map_nil,
    List.flatMap_cons, List.flatMap_nil, List.drop_succ_cons, List.drop_zero, List.cons_append,
    List.nil_append]
  decide +kernel

theorem isPhrase_iff :
    IsPhrase parts token ↔ vocabulary.get? ([' '].intercalate parts) = some token := by
  constructor
  · rintro ⟨entry, listed, written, rfl⟩
    have checked := List.all_eq_true.1 entries_checked entry listed
    simp only [Bool.and_eq_true, decide_eq_true_eq] at checked
    rw [← written]
    exact checked.1
  · intro found
    obtain ⟨entry, listed, eq⟩ := List.mem_map.1 (Trie.mem_of_get?_ofList found)
    exact ⟨entry, listed, congrArg Prod.fst eq, congrArg Prod.snd eq⟩

/-- The lexicon is closed: each word of a phrase can be read on its own. -/
theorem IsPhrase.isReadable (phrase : IsPhrase parts token)
    (unspaced : ∀ part ∈ parts, IsUnspaced part) : ∀ part ∈ parts, IsReadable part := by
  obtain ⟨entry, listed, written, -⟩ := phrase
  have checked := List.all_eq_true.1 entries_checked entry listed
  simp only [Bool.and_eq_true] at checked
  have split : words (· == ' ') entry.word = parts := by
    rw [written]
    exact words_intercalate (by simp) (by simp) unspaced
  rw [split] at checked
  intro part member
  obtain ⟨other, present, same⟩ := List.any_eq_true.1 (List.all_eq_true.1 checked.2 part member)
  exact .inl ⟨other, present, of_decide_eq_true same⟩

theorem Takes.ne_nil (takes : Takes rest first token) : first ≠ [] := by
  cases takes with
  | phrase nonempty => exact nonempty
  | digits => exact List.cons_ne_nil _ _

/-- What is taken is found at the front of the text. -/
theorem french_of_takes (takes : Takes rest first token)
    (unspaced : ∀ part ∈ first ++ rest, IsUnspaced part) :
    Lexeme.french vocabulary before previous ([' '].intercalate first ++ onwards rest) =
      .token ([' '].intercalate first).length token := by
  cases takes with
  | phrase nonempty phrase longest =>
    obtain ⟨word, others, rfl⟩ := List.exists_cons_of_ne_nil nonempty
    rw [← intercalate_append nonempty]
    obtain ⟨c, head, -, solid⟩ :=
      head?_intercalate (unspaced word (by simp)) (others ++ rest)
    have found : vocabulary.longestWhere?
        (fun length => (([' '].intercalate (word :: others ++ rest)).drop length).head?.all
          (· == ' ')) ([' '].intercalate (word :: others ++ rest)) =
            some (([' '].intercalate (word :: others)).length, token) := by
      refine Trie.longestWhere?_eq_some_iff.2 ⟨?_, ?_, ?_, fun longer exceeds fits ends => ?_⟩
      · rw [intercalate_append nonempty, List.length_append]
        exact Nat.le_add_right _ _
      · rw [intercalate_append nonempty, List.take_left]
        exact isPhrase_iff.1 phrase
      · rw [intercalate_append nonempty]
        exact DigitItem.ends_of_spaced (spaced_onwards rest) _
      · rw [Option.eq_none_iff_forall_ne_some]
        intro other stored
        have filled : ([' '].intercalate (word :: others ++ rest)).take longer ≠ [] := by
          intro nothing
          rw [nothing, Trie.get?_nil] at stored
          cases stored
        obtain ⟨more, last, split, front, -⟩ := exists_of_append_eq unspaced filled ends
          (List.take_append_drop _ _)
        -- The longer front has more words, so that it is a longer phrase.
        rcases List.append_eq_append_iff.1 split with ⟨extra, eq, after⟩ | ⟨extra, eq, after⟩
        · subst eq after
          rw [front] at stored
          refine longest extra ?_ (List.prefix_append _ _) other ?_
          · rintro rfl
            have lengths := congrArg List.length front
            rw [List.length_take_of_le fits, List.append_nil] at lengths
            omega
          · rw [List.cons_append]
            exact isPhrase_iff.2 stored
        · have lengths := congrArg List.length front
          rw [List.length_take_of_le fits] at lengths
          rw [eq, ← List.cons_append, intercalate_append (List.cons_ne_nil _ _),
            List.length_append] at exceeds
          omega
    simp only [Lexeme.french]
    rw [if_neg (by simpa [head] using solid), found]
  | @digits word _ explicit =>
    obtain ⟨nonempty, short, digits, fits, rfl⟩ := Token.explicit?_eq_some_iff.1 explicit
    -- What stands before a word does not matter to the scanner.
    have alone : Lexeme.french vocabulary before previous =
        Lexeme.french vocabulary none previous := rfl
    rw [List.intercalate_singleton, alone]
    exact DigitItem.finds_french.digits word ⟨nonempty, short, digits, fits⟩ _
      (spaced_onwards rest) none previous rfl

/-- Where something is found, there are words to take. -/
theorem exists_takes_of_french (unspaced : ∀ part ∈ word :: others, IsUnspaced part)
    (readable : Lexeme.french vocabulary before previous ([' '].intercalate (word :: others)) ≠
      .unreadable) :
    ∃ first rest token, word :: others = first ++ rest ∧ Takes rest first token := by
  obtain ⟨c, head, -, solid⟩ := head?_intercalate (unspaced word List.mem_cons_self) others
  simp only [Lexeme.french] at readable
  rw [if_neg (by simpa [head] using solid)] at readable
  split at readable
  · next length token longest =>
    obtain ⟨fits, stored, ends, longest⟩ := Trie.longestWhere?_eq_some_iff.1 longest
    have filled : ([' '].intercalate (word :: others)).take length ≠ [] := by
      intro nothing
      rw [nothing, Trie.get?_nil] at stored
      cases stored
    obtain ⟨more, rest, rfl, front, -⟩ := exists_of_append_eq unspaced filled ends
      (List.take_append_drop _ _)
    have exact := congrArg List.length front
    rw [List.length_take_of_le fits] at exact
    refine ⟨word :: more, rest, token, rfl, .phrase (List.cons_ne_nil _ _) ?_ ?_⟩
    · rw [isPhrase_iff, ← front]
      exact stored
    · rintro extra nonempty ⟨last, rfl⟩ other phrase
      have whole : [' '].intercalate (word :: (more ++ (extra ++ last))) =
          [' '].intercalate (word :: more ++ extra) ++ onwards last := by
        rw [← intercalate_append (by simp), List.append_assoc, List.cons_append]
      have missing := longest ([' '].intercalate (word :: more ++ extra)).length
      rw [whole, List.take_left, isPhrase_iff.1 phrase] at missing
      obtain ⟨next, further, rfl⟩ := List.exists_cons_of_ne_nil nonempty
      refine absurd (missing ?_ ?_ (DigitItem.ends_of_spaced (spaced_onwards last) _)) (by simp)
      · rw [exact, intercalate_append (List.cons_ne_nil _ _), onwards_cons, List.length_append]
        simp
      · rw [List.length_append]
        exact Nat.le_add_right _ _
  · split at readable
    · next complete =>
      obtain ⟨nonempty, ends⟩ := Bool.and_eq_true_iff.1 complete
      cases explicit : Token.explicit?
          (([' '].intercalate (word :: others)).takeWhile Token.isDigit) with
      | none =>
        rw [explicit] at readable
        exact absurd rfl readable
      | some token =>
        have front := List.prefix_iff_eq_take.1
          (List.takeWhile_prefix Token.isDigit (l := [' '].intercalate (word :: others)))
        have filled := (Token.explicit?_eq_some_iff.1 explicit).1
        rw [front] at filled
        obtain ⟨more, rest, rfl, made, -⟩ := exists_of_append_eq unspaced filled ends
          (List.take_append_drop _ _)
        rw [← front] at made
        -- There is no space among the digits, so that they are one word.
        cases more with
        | nil =>
          rw [List.intercalate_singleton] at made
          rw [made] at explicit
          exact ⟨[word], rest, token, rfl, .digits explicit⟩
        | cons next more =>
          have digits := (Token.explicit?_eq_some_iff.1 explicit).2.2.1
          rw [made, List.intercalate_cons_cons] at digits
          simp [Token.isDigit] at digits
    · exact absurd rfl readable

/-- The scan takes the first words, and goes on with the others. -/
theorem scan_of_takes (takes : Takes rest first token)
    (unspaced : ∀ part ∈ first ++ rest, IsUnspaced part) (before : Option Char)
    (previous : Option Token) :
    ∃ last, Lexeme.scan (Lexeme.french vocabulary) before previous
        ([' '].intercalate (first ++ rest)) =
      (Lexeme.scan (Lexeme.french vocabulary) last (some token) ([' '].intercalate rest)).map
        (token :: ·) := by
  have filled : [' '].intercalate first ≠ [] := intercalate_ne_nil takes.ne_nil
    fun part member => unspaced part (List.mem_append_left _ member)
  rw [intercalate_append takes.ne_nil,
    Lexeme.scan_append_of_token filled (french_of_takes takes unspaced)]
  cases rest with
  | nil => exact ⟨_, rfl⟩
  | cons word others =>
    rw [onwards_cons, Lexeme.scan_cons_of_gap (french_space _ _ _)]
    exact ⟨_, rfl⟩

theorem scan_of_longestSplit (split : LongestSplit parts tokens)
    (unspaced : ∀ part ∈ parts, IsUnspaced part) (before : Option Char)
    (previous : Option Token) :
    Lexeme.scan (Lexeme.french vocabulary) before previous ([' '].intercalate parts) =
      some tokens := by
  induction split generalizing before previous with
  | nil => exact Lexeme.scan.eq_1 ..
  | cons takes _ ih =>
    obtain ⟨last, step⟩ := scan_of_takes takes unspaced before previous
    rw [step, ih fun part member => unspaced part (List.mem_append_right _ member)]
    rfl

theorem longestSplit_of_scan (unspaced : ∀ part ∈ parts, IsUnspaced part)
    (scanned : Lexeme.scan (Lexeme.french vocabulary) before previous ([' '].intercalate parts) =
      some tokens) : LongestSplit parts tokens := by
  induction length : parts.length using Nat.strong_induction_on
    generalizing parts tokens before previous with
  | _ count ih =>
    cases parts with
    | nil =>
      rw [List.intercalate_nil, Lexeme.scan] at scanned
      cases scanned
      exact .nil
    | cons word others =>
      have readable : Lexeme.french vocabulary before previous
          ([' '].intercalate (word :: others)) ≠ .unreadable := by
        intro unreadable
        rw [Lexeme.scan_of_unreadable (intercalate_ne_nil (List.cons_ne_nil _ _) unspaced)
          unreadable] at scanned
        cases scanned
      obtain ⟨first, rest, token, split, takes⟩ := exists_takes_of_french unspaced readable
      rw [split] at unspaced scanned length ⊢
      obtain ⟨last, step⟩ := scan_of_takes takes unspaced before previous
      rw [step] at scanned
      obtain ⟨further, onward, rfl⟩ := Option.map_eq_some_iff.1 scanned
      have shorter : rest.length < count := by
        have positive := List.length_pos_iff.2 takes.ne_nil
        rw [← length, List.length_append]
        omega
      exact .cons takes (ih rest.length shorter
        (fun part member => unspaced part (List.mem_append_right _ member)) onward rfl)

/-- Only words that can be read on their own are taken. -/
theorem LongestSplit.isReadable (split : LongestSplit parts tokens)
    (unspaced : ∀ part ∈ parts, IsUnspaced part) : ∀ part ∈ parts, IsReadable part := by
  induction split with
  | nil => simp
  | cons takes _ ih =>
    rw [List.forall_mem_append] at unspaced ⊢
    refine ⟨?_, ih unspaced.2⟩
    cases takes with
    | phrase _ phrase _ => exact phrase.isReadable unspaced.1
    | digits explicit =>
      rw [List.forall_mem_singleton]
      exact .inr (by rw [explicit]; rfl)

/-- A phrase that starts some words can be made a longest one. -/
theorem exists_longest_phrase (nonempty : first ≠ []) (phrase : IsPhrase first token) :
    ∃ more last other, rest = more ++ last ∧ Takes last (first ++ more) other := by
  induction length : rest.length using Nat.strong_induction_on
    generalizing first rest token with
  | _ count ih =>
    by_cases longer : ∃ more, more ≠ [] ∧ more <+: rest ∧ ∃ other, IsPhrase (first ++ more) other
    · obtain ⟨more, filled, ⟨last, rfl⟩, other, further⟩ := longer
      have shorter : last.length < count := by
        have positive := List.length_pos_iff.2 filled
        rw [← length, List.length_append]
        omega
      obtain ⟨extra, last, other, rfl, takes⟩ := ih last.length shorter (by simp [nonempty]) further rfl
      exact ⟨more ++ extra, last, other, by simp, by rwa [← List.append_assoc]⟩
    · refine ⟨[], rest, token, rfl, ?_⟩
      rw [List.append_nil]
      exact .phrase nonempty phrase fun more filled starts other further =>
        longer ⟨more, filled, starts, other, further⟩

/-- The split never gets stuck before a word that can be read. -/
theorem exists_longestSplit (readable : ∀ part ∈ parts, IsReadable part) :
    ∃ tokens, LongestSplit parts tokens := by
  induction length : parts.length using Nat.strong_induction_on generalizing parts with
  | _ count ih =>
    cases parts with
    | nil => exact ⟨[], .nil⟩
    | cons word others =>
      have start : ∃ more last token, others = more ++ last ∧ Takes last (word :: more) token := by
        rcases readable word List.mem_cons_self with ⟨entry, listed, written⟩ | explicit
        · have alone : IsPhrase [word] entry.token :=
            ⟨entry, listed, by rw [List.intercalate_singleton]; exact written, rfl⟩
          exact exists_longest_phrase (List.cons_ne_nil _ _) alone
        · obtain ⟨token, explicit⟩ := Option.isSome_iff_exists.1 explicit
          exact ⟨[], others, token, rfl, .digits explicit⟩
      obtain ⟨more, last, token, rfl, takes⟩ := start
      have shorter : last.length < count := by
        rw [← length, List.length_cons, List.length_append]
        omega
      obtain ⟨tokens, split⟩ := ih last.length shorter
        (fun part member => readable part (List.mem_cons_of_mem _ (List.mem_append_right _ member)))
        rfl
      exact ⟨token :: tokens, .cons takes split⟩

theorem LongestSplit.eq_nil_iff (split : LongestSplit parts tokens) :
    tokens = [] ↔ parts = [] := by
  cases split with
  | nil => simp
  | cons takes _ => simp [takes.ne_nil]

theorem frenchText_words (text : List Char) :
    [' '].intercalate (words (· == ' ') (Scheme.frenchText text)) = Scheme.frenchText text ∧
      ∀ part ∈ words (· == ' ') (Scheme.frenchText text), IsUnspaced part := by
  have unspaced : ∀ part ∈ words isBlank ((lower text).map divided), IsUnspaced part := by
    intro part member
    refine ⟨ne_nil_of_mem_words member, fun c inside => ?_⟩
    have solid := not_gap_of_mem_words member c inside
    rw [← Bool.not_eq_true, beq_iff_eq]
    rintro rfl
    cases solid
  have split : words (· == ' ') (Scheme.frenchText text) =
      words isBlank ((lower text).map divided) :=
    words_intercalate (by simp) (by simp) unspaced
  rw [split]
  exact ⟨rfl, unspaced⟩

theorem tokenize_iff (text : List Char) (tokens : List Token) :
    Scheme.french.reader.tokenize text = some tokens ↔
      Scheme.frenchText text ≠ [] ∧
        LongestSplit (words (· == ' ') (Scheme.frenchText text)) tokens := by
  obtain ⟨written, unspaced⟩ := frenchText_words text
  have scanned : Lexeme.scan (Lexeme.french vocabulary) none none
      ([' '].intercalate (words (· == ' ') (Scheme.frenchText text))) = some tokens ↔
        LongestSplit (words (· == ' ') (Scheme.frenchText text)) tokens :=
    ⟨longestSplit_of_scan unspaced, fun split => scan_of_longestSplit split unspaced none none⟩
  rw [written] at scanned
  have empty : words (· == ' ') (Scheme.frenchText text) = [] ↔ Scheme.frenchText text = [] := by
    constructor
    · intro nothing
      rw [← written, nothing]
      rfl
    · intro nothing
      rw [nothing]
      rfl
  rw [show Scheme.french.reader.tokenize text = Lexeme.tokens? (Lexeme.french vocabulary)
    (Scheme.frenchText text) from rfl, Lexeme.tokens?, Option.filter_eq_some_iff, scanned]
  constructor
  · rintro ⟨split, filled⟩
    refine ⟨fun nothing => ?_, split⟩
    rw [split.eq_nil_iff.2 (empty.2 nothing)] at filled
    cases filled
  · rintro ⟨filled, split⟩
    refine ⟨split, ?_⟩
    simpa [split.eq_nil_iff, empty] using filled

/-- A text is read if and only if its normal form is not empty and each word of it can be read
on its own; its tokens are those of the longest phrases, from left to right. -/
theorem tokenize_longest_phrases (text : List Char) :
    ((∃ tokens, Scheme.french.reader.tokenize text = some tokens) ↔
        Scheme.frenchText text ≠ [] ∧
          ∀ word ∈ words (· == ' ') (Scheme.frenchText text), IsReadable word) ∧
      ∀ tokens, Scheme.french.reader.tokenize text = some tokens ↔
        Scheme.frenchText text ≠ [] ∧
          LongestSplit (words (· == ' ') (Scheme.frenchText text)) tokens := by
  refine ⟨?_, tokenize_iff text⟩
  simp only [tokenize_iff, exists_and_left, and_congr_right_iff]
  intro _
  constructor
  · rintro ⟨tokens, split⟩
    exact split.isReadable (frenchText_words text).2
  · exact exists_longestSplit

end Numeral.French

end Phrasebook
