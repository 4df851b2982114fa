import Phrasebook.Numeral.Registry
import Phrasebook.Proofs.Scanning
import Phrasebook.Proofs.Vocabulary

/-! Japanese number words in a text.

Nothing stands between the words, and the longest entry is taken at each place. No
entry goes on after a number word with the first character of another one, so that
words that are put side by side are found as they are.
-/

set_option autoImplicit false

namespace Phrasebook.Numeral.Japanese

open Text

/-- Number characters, by their values. -/
def characters : List (Nat × String) :=
  [(0, "零"), (0, "〇"), (1, "一"), (2, "二"), (3, "三"), (4, "四"), (5, "五"), (6, "六"),
    (7, "七"), (8, "八"), (9, "九"), (10, "十"), (100, "百"), (1000, "千"), (10000, "万"),
    (100000000, "億"), (1000000000000, "兆")]

/-- How numbers are read aloud. Some hundreds and thousands are said as one word. -/
def readings : List (Nat × String) :=
  [(1, "いち"), (2, "に"), (3, "さん"), (4, "よん"), (5, "ご"), (6, "ろく"), (7, "なな"),
    (8, "はち"), (9, "きゅう"), (10, "じゅう"), (100, "ひゃく"), (300, "さんびゃく"),
    (600, "ろっぴゃく"), (800, "はっぴゃく"), (1000, "せん"), (3000, "さんぜん"),
    (8000, "はっせん"), (10000, "まん")]

/-- A text of the words for some values, side by side. -/
inductive Spells (names : List (Nat × String)) : List Nat → List Char → Prop where
  | nil : Spells names [] []
  | cons {value : Nat} {name : String} {values : List Nat} {text : List Char} :
      (value, name) ∈ names → Spells names values text →
      Spells names (value :: values) (name.toList ++ text)

abbrev vocabulary : Trie Char Token := Lexicon.japanese.vocabulary

/-- The words that a numeral may be made of. -/
abbrev names : List (Nat × String) := characters ++ readings

/-- Each word is stored with its value, it begins with a character that is neither a blank
nor a digit, and no entry goes on after it with another word. -/
theorem names_checked : names.all (fun entry =>
    decide (vocabulary.get? entry.2.toList = some (.number entry.1)) &&
      (entry.2.toList.head?.any (fun c => !isBlank c && !(Lexeme.asciiDigit? c).isSome) &&
        names.all fun other =>
          !(vocabulary.descend entry.2.toList).meets other.2.toList)) = true := by
  decide +kernel

section

variable {entry : Nat × String} (listed : entry ∈ names)

include listed

theorem get?_of_mem_names : vocabulary.get? entry.2.toList = some (.number entry.1) := by
  have checked := List.all_eq_true.1 names_checked entry listed
  simp only [Bool.and_eq_true, decide_eq_true_eq] at checked
  exact checked.1

theorem exists_first_of_mem_names : ∃ c, entry.2.toList.head? = some c ∧ isBlank c = false ∧
    (Lexeme.asciiDigit? c).isSome = false := by
  have checked := List.all_eq_true.1 names_checked entry listed
  simp only [Bool.and_eq_true] at checked
  simpa using (Option.any_eq_true _ _).1 checked.2.1

theorem meets_of_mem_names {other : Nat × String} (also : other ∈ names) :
    (vocabulary.descend entry.2.toList).meets other.2.toList = false := by
  have checked := List.all_eq_true.1 names_checked entry listed
  simp only [Bool.and_eq_true] at checked
  simpa using List.all_eq_true.1 checked.2.2 other also

end

theorem Spells.of_subset {some all : List (Nat × String)} (within : some ⊆ all) {values : List Nat}
    {text : List Char} (spelled : Spells some values text) : Spells all values text := by
  induction spelled with
  | nil => exact .nil
  | cons listed _ ih => exact .cons (within listed) ih

variable {values : List Nat} {text : List Char}

theorem spells_of_subset {table : List (Nat × String)} (entries : List (Nat × String))
    (within : entries ⊆ table) (said : entries.map Prod.fst = values)
    (written : (entries.flatMap fun entry => entry.2.toList) = text) :
    Spells table values text := by
  subst said written
  induction entries with
  | nil => exact .nil
  | cons entry entries ih =>
    exact .cons (within (List.mem_cons_self ..)) (ih fun _ other => within (.tail _ other))

theorem exists_spells {table : List (Nat × String)} (values : List Nat)
    (named : ∀ value ∈ values, value ∈ table.map Prod.fst) : ∃ text, Spells table values text := by
  induction values with
  | nil => exact ⟨[], .nil⟩
  | cons value values ih =>
    obtain ⟨text, others⟩ := ih fun other member => named other (List.mem_cons_of_mem _ member)
    obtain ⟨⟨_, name⟩, listed, rfl⟩ := List.mem_map.1 (named value (List.mem_cons_self ..))
    exact ⟨_, .cons listed others⟩

theorem follows_of_spells (spelled : Spells names values text) :
    text = [] ∨ ∃ other ∈ names, other.2.toList <+: text := by
  cases spelled with
  | nil => exact .inl rfl
  | cons listed _ => exact .inr ⟨_, listed, List.prefix_append _ _⟩

theorem japanese_word {entry : Nat × String} {rest : List Char} (listed : entry ∈ names)
    (follows : rest = [] ∨ ∃ other ∈ names, other.2.toList <+: rest)
    (before : Option Char) (previous : Option Token) :
    Lexeme.japanese vocabulary before previous (entry.2.toList ++ rest) =
      .token entry.2.toList.length (.number entry.1) := by
  obtain ⟨first, head, solid, letter⟩ := exists_first_of_mem_names listed
  have found : vocabulary.longest? (entry.2.toList ++ rest) =
      some (entry.2.toList.length, .number entry.1) := by
    rw [Trie.longest?_eq_longestWhere?]
    exact Trie.longestWhere?_append (get?_of_mem_names listed) rfl <|
      follows.imp_right fun ⟨_, also, starts⟩ => ⟨_, starts, meets_of_mem_names listed also⟩
  have starts : (entry.2.toList ++ rest).head? = some first := by
    rw [List.head?_append, head, Option.some_or]
  have nodigits : (entry.2.toList ++ rest).takeWhile
      (fun c => (Lexeme.asciiDigit? c).isSome) = [] := by
    obtain ⟨others, eq⟩ := List.head?_eq_some_iff.1 starts
    rw [eq, List.takeWhile_cons_of_neg (by simp [letter])]
  simp only [Lexeme.japanese, starts, nodigits, found]
  simp [solid, Token.explicit?]

theorem scan_of_spells (spelled : Spells names values text) (before : Option Char)
    (previous : Option Token) :
    Lexeme.scan (Lexeme.japanese vocabulary) before previous text =
      some (values.map Token.number) := by
  induction spelled generalizing before previous with
  | nil =>
    rw [Lexeme.scan]
    rfl
  | @cons value name values text listed spelled ih =>
    obtain ⟨first, head, -⟩ := exists_first_of_mem_names listed
    have nonempty : name.toList ≠ [] := by
      intro nothing
      simp [nothing] at head
    -- The word ends where the next one begins: the vocabulary has no word that spans both.
    rw [Lexeme.scan_append_of_token nonempty
      (japanese_word listed (follows_of_spells spelled) before previous), ih]
    rfl

theorem tokenize_of_spells (spelled : Spells names values text) (nonempty : values ≠ []) :
    Scheme.japanese.tokenize vocabulary text = some (values.map Token.number) := by
  have filled : (values.map Token.number).isEmpty = false := by simp [nonempty]
  rw [Scheme.tokenize, Lexeme.tokens?, scan_of_spells spelled, Option.filter_some, filled]
  rfl

/-- The words for some values are read as their tokens are. -/
theorem read?_of_spells (spelled : Spells names values text) (nonempty : values ≠ []) :
    Scheme.japanese.reader.read? text =
      (Positional.grammar .word64 false).resolve .leftToRight (values.map Token.number) := by
  rw [show Scheme.japanese.reader.read? text = (Scheme.japanese.tokenize vocabulary text).bind
    (Scheme.japanese.evaluate .word64) from rfl, tokenize_of_spells spelled nonempty,
    Option.bind_some]
  rfl

end Phrasebook.Numeral.Japanese
