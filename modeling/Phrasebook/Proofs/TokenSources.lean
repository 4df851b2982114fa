import Phrasebook.Numeral.Reader
import Phrasebook.Proofs.Segmentation
import Phrasebook.Proofs.Vocabulary

/-! Where the tokens of a text come from.

In every language a token is an entry of the lexicon, a linking word, or a digit string
of the text.
-/

set_option autoImplicit false

namespace Phrasebook.Numeral

inductive Token.From (lexicon : Lexicon) : Token → Prop
  | entry {entry : Entry} (listed : entry ∈ lexicon.entries) : From lexicon entry.token
  | connector : From lexicon .connector
  | explicit {digits : List Char} {token : Token} (written : explicit? digits = some token) :
    From lexicon token

open Token (From)

variable {lexicon : Lexicon}

namespace Lexicon

theorem from_of_get? {word : List Char} {token : Token}
    (found : lexicon.vocabulary.get? word = some token) : From lexicon token := by
  obtain ⟨entry, listed, same⟩ := List.mem_map.1 (Trie.mem_of_get?_ofList found)
  cases same
  exact .entry listed

theorem from_of_longestWhere? {accepts : Nat → Bool} {text : List Char} {length : Nat}
    {token : Token} (found : lexicon.vocabulary.longestWhere? accepts text = some (length, token)) :
    From lexicon token :=
  from_of_get? (Trie.mem_starts_iff.1 (List.mem_reverse.1 (List.mem_of_find?_eq_some found))).2

theorem from_of_longest? {text : List Char} {length : Nat} {token : Token}
    (found : lexicon.vocabulary.longest? text = some (length, token)) : From lexicon token := by
  rw [Trie.longest?_eq_longestWhere?] at found
  exact from_of_longestWhere? found

end Lexicon

namespace Lexeme

/-- All tokens that a scanner finds in a text have what each of them has. -/
theorem forall_mem_of_scan {scanner : Scanner} {P : Token → Prop}
    (each : ∀ {before previous text length found},
      scanner before previous text = .token length found → P found)
    {before : Option Char} {previous : Option Token} {text : List Char} {tokens : List Token}
    (found : scan scanner before previous text = some tokens) : ∀ token ∈ tokens, P token := by
  fun_induction scan scanner before previous text generalizing tokens with
  | case1 =>
    cases found
    simp
  | case2 => simp at found
  | case3 before previous c rest step ih => exact ih found
  | case4 before previous c rest length token step ih =>
    obtain ⟨others, scanned, rfl⟩ := Option.map_eq_some_iff.1 found
    exact List.forall_mem_cons.2 ⟨each step, ih scanned⟩

theorem forall_mem_of_tokens? {scanner : Scanner} {P : Token → Prop}
    (each : ∀ {before previous text length found},
      scanner before previous text = .token length found → P found)
    {text : List Char} {tokens : List Token} (found : tokens? scanner text = some tokens) :
    ∀ token ∈ tokens, P token :=
  forall_mem_of_scan each (Option.filter_eq_some_iff.1 found).1

theorem eq_some_of_ofToken? {length size : Nat} {token : Option Token} {found : Token}
    (taken : ofToken? length token = .token size found) : token = some found := by
  cases token with
  | none => simp [ofToken?] at taken
  | some token =>
    cases taken
    rfl

variable {before : Option Char} {previous : Option Token} {text : List Char} {length : Nat}
  {found : Token}

theorem from_of_english
    (taken : english lexicon.vocabulary before previous text = .token length found) :
    From lexicon found := by
  unfold english at taken
  simp only at taken
  split at taken
  · next listed =>
    cases taken
    exact Lexicon.from_of_longestWhere? listed
  · split at taken
    · exact .explicit (eq_some_of_ofToken? taken)
    · split at taken <;> simp at taken

theorem from_of_french
    (taken : french lexicon.vocabulary before previous text = .token length found) :
    From lexicon found := by
  unfold french at taken
  simp only at taken
  split at taken
  · simp at taken
  · split at taken
    · next listed =>
      cases taken
      exact Lexicon.from_of_longestWhere? listed
    · split at taken
      · exact .explicit (eq_some_of_ofToken? taken)
      · simp at taken

theorem from_of_japanese
    (taken : japanese lexicon.vocabulary before previous text = .token length found) :
    From lexicon found := by
  unfold japanese at taken
  simp only at taken
  split at taken
  · simp at taken
  · split at taken
    · next written =>
      cases taken
      exact .explicit written
    · split at taken
      · next listed =>
        cases taken
        exact Lexicon.from_of_longest? listed
      · simp at taken

theorem from_of_chinese
    (taken : chinese lexicon.vocabulary before previous text = .token length found) :
    From lexicon found := by
  unfold chinese at taken
  simp only at taken
  split at taken
  · next listed =>
    cases taken
    split
    · exact .connector
    · exact Lexicon.from_of_longest? listed
  · split at taken
    · obtain ⟨ascii, -, written⟩ := Option.bind_eq_some_iff.1 (eq_some_of_ofToken? taken)
      exact .explicit written
    · split at taken <;> simp at taken

end Lexeme

namespace Scheme

theorem from_of_wordToken? {word : List Char} {token : Token}
    (found : wordToken? lexicon.vocabulary word = some token) : From lexicon token := by
  unfold wordToken? at found
  split at found
  · exact .explicit found
  · exact Lexicon.from_of_get? found

theorem forall_mem_of_forall₂ {α β : Type} {f : α → Option β} {P : β → Prop} {inputs : List α}
    {results : List β} (each : ∀ {input result}, f input = some result → P result)
    (related : List.Forall₂ (fun input result => f input = some result) inputs results) :
    ∀ result ∈ results, P result := by
  induction related with
  | nil => simp
  | cons found _ ih => exact List.forall_mem_cons.2 ⟨each found, ih⟩

theorem from_of_tokenize (scheme : Scheme) {text : List Char} {tokens : List Token}
    (read : scheme.tokenize lexicon.vocabulary text = some tokens) :
    ∀ token ∈ tokens, From lexicon token := by
  cases scheme with
  | english => exact Lexeme.forall_mem_of_tokens? Lexeme.from_of_english read
  | spanish =>
    exact forall_mem_of_forall₂ from_of_wordToken?
      (mapM_eq_some_iff.1 (Option.filter_eq_some_iff.1 read).1)
  | french => exact Lexeme.forall_mem_of_tokens? Lexeme.from_of_french read
  | japanese => exact Lexeme.forall_mem_of_tokens? Lexeme.from_of_japanese read
  | chinese => exact Lexeme.forall_mem_of_tokens? Lexeme.from_of_chinese read

end Scheme

end Phrasebook.Numeral
