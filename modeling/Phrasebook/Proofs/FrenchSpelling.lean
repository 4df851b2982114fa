import Phrasebook.Numeral.Registry
import Phrasebook.Proofs.FrenchNumerals
import Phrasebook.Proofs.NormalText
import Phrasebook.Proofs.Scanning
import Phrasebook.Proofs.Vocabulary

/-! French numerals in a text.

Each part of a numeral has a name of one or more words. Between any two words stands
at least one blank, hyphen or comma, and the text is first brought to single spaces.
No longer entry starts with a name and goes on with the name of the part after it.
-/

set_option autoImplicit false

namespace Phrasebook

open Text

namespace Numeral.French

def units : List (Nat × String) :=
  [(1, "un"), (2, "deux"), (3, "trois"), (4, "quatre"), (5, "cinq"), (6, "six"), (7, "sept"),
    (8, "huit"), (9, "neuf")]

/-- The names from ten to nineteen; the last three are ten and a unit. -/
def teens : List (Nat × String) :=
  [(10, "dix"), (11, "onze"), (12, "douze"), (13, "treize"), (14, "quatorze"), (15, "quinze"),
    (16, "seize"), (17, "dix sept"), (18, "dix huit"), (19, "dix neuf")]

def tens : List (Nat × String) :=
  [(20, "vingt"), (30, "trente"), (40, "quarante"), (50, "cinquante"), (60, "soixante")]

def scales : List (Nat × String) :=
  [(100, "cent"), (100, "cents"), (1000, "mille"), (10 ^ 6, "million"), (10 ^ 6, "millions"),
    (10 ^ 9, "milliard"), (10 ^ 9, "milliards")]

/-- A name that counts on from another one. -/
def onward (base : Nat) (words : String) (more : Nat × String) : Nat × List Char :=
  (base + more.1, words.toList ++ ' ' :: more.2.toList)

/-- The names of the parts of numerals. Seventies count on from sixty, and nineties from
eighty. -/
def names : List (Nat × List Char) :=
  ((0, "zéro") :: units ++ teens ++ tens ++ scales).map (fun name => (name.1, name.2.toList)) ++
    tens.map (fun ten => onward ten.1 ten.2 (1, "et un")) ++
    (teens.map fun teen => onward 60 "soixante" (if teen.1 = 11 then (11, "et onze") else teen)) ++
    [(80, "quatre vingt".toList), (80, "quatre vingts".toList)] ++
    (units ++ teens).map (onward 80 "quatre vingt")

/-- The names of some parts, with single spaces between them. -/
inductive Names : List Nat → List Char → Prop where
  | last {value : Nat} {name : List Char} : (value, name) ∈ names → Names [value] name
  | cons {value : Nat} {name : List Char} {values : List Nat} {others : List Char} :
      (value, name) ∈ names → Names values others →
      Names (value :: values) (name ++ ' ' :: others)

def isLetter (c : Char) : Bool := c.isLower || c == 'é'

/-- A word, in any capitals. -/
def isWord (text : List Char) : Bool := !text.isEmpty && text.all fun c => isLetter c.toLower

/-- A text with the words of a normal one, in any capitals, and any gaps for its spaces. -/
inductive Respaces : List Char → List Char → Prop where
  | last {word : List Char} : isWord word = true → Respaces (word.map Char.toLower) word
  | cons {word normal text : List Char} (gap : List Char) : isWord word = true → gap ≠ [] →
      gap.all isWordGap = true → Respaces normal text →
      Respaces (word.map Char.toLower ++ ' ' :: normal) (word ++ gap ++ text)

theorem isWordChar_of_isLetter {c : Char} (letter : isLetter c = true) : isWordChar c = true := by
  rw [isLetter, Bool.or_eq_true, beq_iff_eq] at letter
  rcases letter with lower | rfl
  · exact isWordChar_of_isLower lower
  · decide +kernel

theorem not_isWordGap_of_isLetter {c : Char} (letter : isLetter c = true) :
    isWordGap c = false := by
  rw [← Bool.not_eq_true]
  intro gap
  have word := isWordChar_of_isLetter letter
  rw [not_isWordChar_of_isWordGap gap] at word
  simp at word

theorem lowerChar_of_isLetter_toLower {c : Char} (letter : isLetter c.toLower = true) :
    c ≠ 'Σ' ∧ lowerChar c = [c.toLower] := by
  rw [isLetter, Bool.or_eq_true, beq_iff_eq] at letter
  rcases letter with lower | accented
  · exact lowerChar_of_isLower_toLower lower
  · have capitals : ∀ point < 0x5B, (Char.ofNat point).toLower ≠ 'é' := by decide +kernel
    have same : c = 'é' := by
      by_cases capital : 0x41 ≤ c.toNat ∧ c.toNat ≤ 0x5A
      · have other := capitals c.toNat (by omega)
        rw [Char.ofNat_toNat] at other
        exact absurd accented other
      · rwa [toLower_of_not_capital capital] at accented
    subst same
    exact ⟨by decide, by decide +kernel⟩

variable {word normal text : List Char}

theorem isLetter_of_isWord (whole : isWord word = true) :
    word ≠ [] ∧ ∀ c ∈ word, isLetter c.toLower = true := by
  simpa [isWord] using whole

theorem simple_of_respaces (respaced : Respaces normal text) :
    ∀ c ∈ text, c ≠ 'Σ' ∧ lowerChar c = [c.toLower] := by
  have lettered {word : List Char} (whole : isWord word = true) (c : Char) (member : c ∈ word) :
      c ≠ 'Σ' ∧ lowerChar c = [c.toLower] :=
    lowerChar_of_isLetter_toLower ((isLetter_of_isWord whole).2 c member)
  induction respaced with
  | last whole => exact lettered whole
  | cons gap whole _ all _ ih =>
    intro c member
    rcases List.mem_append.1 member with front | back
    · rcases List.mem_append.1 front with inside | between
      · exact lettered whole c inside
      · exact lowerChar_of_isCaseless_toLower
          (isCaseless_of_isWordGap (List.all_eq_true.1 all c between))
    · exact ih c back

/-- Hyphens and commas divide words as blanks do. -/
def divided (c : Char) : Char := if c == '-' || c == ',' then ' ' else c

theorem isBlank_divided {c : Char} (gap : isWordGap c = true) : isBlank (divided c) = true := by
  unfold divided
  split
  · decide
  · next other =>
    simp only [isWordGap, Bool.or_eq_true] at gap other
    tauto

theorem divided_of_isLetter {c : Char} (letter : isLetter c = true) :
    divided c = c ∧ isBlank c = false := by
  have solid := not_isWordGap_of_isLetter letter
  simp only [isWordGap, Bool.or_eq_false_iff] at solid
  simp [divided, solid]

theorem spaceOut_word (whole : isWord word = true) (started pending : Bool) (rest : List Char) :
    spaceOut isBlank [' '] started pending ((word.map Char.toLower).map divided ++ rest) =
      (if started && pending then [' '] else []) ++
        (word.map Char.toLower ++ spaceOut isBlank [' '] true false rest) := by
  obtain ⟨nonempty, letters⟩ := isLetter_of_isWord whole
  have same : (word.map Char.toLower).map divided = word.map Char.toLower := by
    rw [List.map_map]
    exact List.map_congr_left fun c member => (divided_of_isLetter (letters c member)).1
  have solid : ∀ c ∈ word.map Char.toLower, isBlank c = false := by
    intro c member
    obtain ⟨d, inside, rfl⟩ := List.mem_map.1 member
    exact (divided_of_isLetter (letters d inside)).2
  rw [same]
  obtain ⟨first, others, lowered⟩ :=
    List.exists_cons_of_ne_nil (show word.map Char.toLower ≠ [] by simpa using nonempty)
  rw [lowered] at solid ⊢
  rw [List.cons_append, spaceOut, if_neg (by simp [solid first (List.mem_cons_self ..)]),
    spaceOut_append_of_solid fun c member => solid c (List.mem_cons_of_mem _ member)]
  rfl

/-- Every gap becomes a single space. -/
theorem spaceOut_of_respaces (respaced : Respaces normal text) (started pending : Bool) :
    spaceOut isBlank [' '] started pending ((text.map Char.toLower).map divided) =
      (if started && pending then [' '] else []) ++ normal := by
  induction respaced generalizing started pending with
  | last whole =>
    have spaced := spaceOut_word whole started pending []
    rwa [List.append_nil, spaceOut, List.append_nil] at spaced
  | @cons word normal text gap whole nonempty all _ ih =>
    have blanks : ∀ c ∈ gap.map divided, isBlank c = true := by
      intro c member
      obtain ⟨d, listed, rfl⟩ := List.mem_map.1 member
      exact isBlank_divided (List.all_eq_true.1 all d listed)
    -- The gap only leaves a space pending; the word after it puts the space out.
    rw [List.append_assoc, List.map_append, List.map_append, List.map_append, List.map_append,
      map_toLower_of_isWordGap all, spaceOut_word whole,
      spaceOut_append_of_gap (by simpa using nonempty) blanks, ih]
    rfl

theorem frenchText_of_respaces (respaced : Respaces normal text) :
    Scheme.frenchText text = normal := by
  have lowered := lower_eq_map_toLower (simple_of_respaces respaced)
  have spaced : Scheme.frenchText text =
      spaceOut isBlank [' '] false false ((text.map Char.toLower).map divided) := by
    rw [← intercalate_words, ← lowered]
    rfl
  rw [spaced, spaceOut_of_respaces respaced]
  rfl

abbrev vocabulary : Trie Char Token := Lexicon.french.vocabulary

/-- Each name is stored with its value, it begins with a letter, and no entry goes on
after it with what the next part may be called. -/
theorem names_checked : names.all (fun entry =>
    decide (vocabulary.get? entry.2 = some (.number entry.1)) &&
      (entry.2.head?.any isLetter && names.all fun next => !decide (Adjoins entry.1 next.1) ||
        !(vocabulary.descend entry.2).meets (' ' :: next.2))) = true := by
  -- The strings become characters first, which is slow when it is left to the kernel.
  simp only [names, onward, units, teens, tens, scales, vocabulary, Lexicon.vocabulary,
    Lexicon.french, Lexicon.ofWords, Lexicon.French.compounds, Lexicon.French.onBase,
    Lexicon.French.simple, Lexicon.French.units, Lexicon.French.teens, Lexicon.French.tens,
    Lexicon.French.highUnits, Entry.number, Entry.connector, String.toList_append,
    String.reduceToList, List.map_cons, List.map_nil, List.flatMap_cons, List.flatMap_nil,
    List.drop_succ_cons, List.drop_zero, List.cons_append, List.nil_append]
  decide +kernel

section

variable {entry : Nat × List Char} (listed : entry ∈ names)

include listed

theorem get?_of_mem_names : vocabulary.get? entry.2 = some (.number entry.1) := by
  have checked := List.all_eq_true.1 names_checked entry listed
  simp only [Bool.and_eq_true, decide_eq_true_eq] at checked
  exact checked.1

theorem exists_first_of_mem_names : ∃ c, entry.2.head? = some c ∧ isLetter c = true := by
  have checked := List.all_eq_true.1 names_checked entry listed
  simp only [Bool.and_eq_true] at checked
  exact (Option.any_eq_true _ _).1 checked.2.1

theorem meets_of_adjoins {next : Nat × List Char} (also : next ∈ names)
    (adjoins : Adjoins entry.1 next.1) :
    (vocabulary.descend entry.2).meets (' ' :: next.2) = false := by
  have checked := List.all_eq_true.1 names_checked entry listed
  simp only [Bool.and_eq_true] at checked
  simpa [adjoins] using List.all_eq_true.1 checked.2.2 next also

end

/-- What comes after the name of a part: the end of the text, or another name. -/
def Follows (value : Nat) (rest : List Char) : Prop :=
  rest = [] ∨ ∃ next ∈ names, Adjoins value next.1 ∧ ' ' :: next.2 <+: rest

theorem french_name {entry : Nat × List Char} {rest : List Char} (listed : entry ∈ names)
    (follows : Follows entry.1 rest) (before : Option Char) (previous : Option Token) :
    Lexeme.french vocabulary before previous (entry.2 ++ rest) =
      .token entry.2.length (.number entry.1) := by
  obtain ⟨first, head, letter⟩ := exists_first_of_mem_names listed
  have ends : rest.head?.all (· == ' ') = true := by
    rcases follows with rfl | ⟨_, _, _, _, rfl⟩ <;> rfl
  have apart : rest = [] ∨ ∃ next, next <+: rest ∧
      (vocabulary.descend entry.2).meets next = false :=
    follows.imp_right fun ⟨next, also, adjoins, starts⟩ =>
      ⟨_, starts, meets_of_adjoins listed also adjoins⟩
  have found : vocabulary.longestWhere?
      (fun length => ((entry.2 ++ rest).drop length).head?.all (· == ' ')) (entry.2 ++ rest) =
        some (entry.2.length, .number entry.1) :=
    Trie.longestWhere?_append (get?_of_mem_names listed) (by rw [List.drop_left]; exact ends) apart
  have starts : (entry.2 ++ rest).head? ≠ some ' ' := by
    rw [List.head?_append, head, Option.some_or]
    rintro ⟨⟩
    exact absurd letter (by decide)
  simp only [Lexeme.french]
  rw [if_neg starts, found]

theorem french_space (before : Option Char) (previous : Option Token) (rest : List Char) :
    Lexeme.french vocabulary before previous (' ' :: rest) = .gap := rfl

variable {values : List Nat}

theorem ne_nil_of_names (named : Names values normal) : values ≠ [] := by
  cases named <;> simp

theorem exists_of_names (named : Names values normal) :
    ∃ entry ∈ names, values.head? = some entry.1 ∧ ∃ more, normal = entry.2 ++ more := by
  cases named with
  | last listed => exact ⟨_, listed, rfl, [], by simp⟩
  | cons listed _ => exact ⟨_, listed, rfl, _, rfl⟩

/-- The names of some parts are found one after another. -/
theorem scan_of_names (named : Names values normal) (chain : values.IsChain Adjoins)
    (before : Option Char) (previous : Option Token) :
    Lexeme.scan (Lexeme.french vocabulary) before previous normal =
      some (values.map Token.number) := by
  have nonempty {entry : Nat × List Char} (listed : entry ∈ names) : entry.2 ≠ [] := by
    obtain ⟨first, head, -⟩ := exists_first_of_mem_names listed
    intro nothing
    simp [nothing] at head
  induction named generalizing before previous with
  | @last value name listed =>
    have step := Lexeme.scan_append_of_token (nonempty listed)
      (french_name listed (.inl rfl) before previous)
    rw [List.append_nil] at step
    rw [step, Lexeme.scan]
    rfl
  | @cons value name values others listed named ih =>
    obtain ⟨next, also, head, more, rfl⟩ := exists_of_names named
    obtain ⟨first, later, rfl⟩ := List.exists_cons_of_ne_nil (ne_nil_of_names named)
    cases head
    -- The next part is one that may come here, so that no compound runs into its name.
    have follows : Follows value (' ' :: (next.2 ++ more)) :=
      .inr ⟨next, also, (List.isChain_cons_cons.1 chain).1, more, rfl⟩
    rw [Lexeme.scan_append_of_token (nonempty listed) (french_name listed follows before previous),
      Lexeme.scan_cons_of_gap (french_space _ _ _), ih chain.tail]
    rfl

theorem tokenize_of_respaces {n : Nat} (small : n < 10 ^ 12) (named : Names (numeral n) normal)
    (respaced : Respaces normal text) :
    Scheme.french.tokenize vocabulary text = some ((numeral n).map Token.number) := by
  have filled : ((numeral n).map Token.number).isEmpty = false := by
    simp [numeral_ne_nil small]
  rw [Scheme.tokenize, Lexeme.tokens?, frenchText_of_respaces respaced,
    scan_of_names named (isChain_numeral small), Option.filter_some, filled]
  rfl

/-- A number below 10^12 that is spelled in words is read as its decimal digits,
unless tens meet: "dix mille dix" has more than one reading. -/
theorem reads_of_respaces {n : Nat} (small : n < 10 ^ 12) (named : Names (numeral n) normal)
    (respaced : Respaces normal text) :
    Scheme.french.reader.tokenize text = some ((numeral n).map Token.number) ∧
      (¬TensMeet (numeral n) → Scheme.french.reader.read? text = some (Nat.toDigits 10 n)) ∧
      (TensMeet (numeral n) → Scheme.french.reader.read? text = none) := by
  have tokens := tokenize_of_respaces small named respaced
  have read : Scheme.french.reader.read? text =
      Scheme.french.evaluate .word64 ((numeral n).map Token.number) := by
    rw [show Scheme.french.reader.read? text = (Scheme.french.tokenize vocabulary text).bind
      (Scheme.french.evaluate .word64) from rfl, tokens, Option.bind_some]
  rw [read, evaluate_numeral small]
  exact ⟨tokens, fun apart => if_neg apart, fun meet => if_pos meet⟩

theorem names_of_subset (entries : List (Nat × List Char)) (within : entries ⊆ names)
    (nonempty : entries ≠ []) (said : entries.map Prod.fst = values)
    (written : [' '].intercalate (entries.map Prod.snd) = normal) : Names values normal := by
  subst said written
  induction entries with
  | nil => exact absurd rfl nonempty
  | cons entry entries ih =>
    have listed := within (List.mem_cons_self ..)
    cases entries with
    | nil => simpa using Names.last listed
    | cons next others =>
      have further := ih (fun _ other => within (.tail _ other)) (List.cons_ne_nil _ _)
      simpa [List.intercalate_cons_cons] using Names.cons listed further

/-- A text of some words, each with the gap after it, and a last word. -/
theorem respaces_of_pieces (pieces : List (List Char × List Char)) (last : List Char)
    (words : pieces.all (fun piece => isWord piece.1) = true) (ends : isWord last = true)
    (gaps : pieces.all (fun piece => !piece.2.isEmpty && piece.2.all isWordGap) = true)
    (lowered : pieces.flatMap (fun piece => piece.1.map Char.toLower ++ [' ']) ++
      last.map Char.toLower = normal)
    (written : pieces.flatMap (fun piece => piece.1 ++ piece.2) ++ last = text) :
    Respaces normal text := by
  subst lowered written
  induction pieces with
  | nil => exact .last ends
  | cons piece pieces ih =>
    simp only [List.all_cons, Bool.and_eq_true, Bool.not_eq_true', List.isEmpty_eq_false_iff]
      at words gaps
    have others := ih words.2 gaps.2
    simpa using Respaces.cons piece.2 words.1 gaps.1.1 gaps.1.2 others

/-- Capitals and any gaps, and tens that meet. -/
theorem reads_two_hundred_million :
    Scheme.french.reader.read? "Deux-cents MILLIONS, soixante  et onze".toList =
        some "200000071".toList ∧
      Scheme.french.reader.read? "dix-mille, dix".toList = none := by
  have apart : Names (numeral 200000071) "deux cents millions soixante et onze".toList :=
    names_of_subset [(2, "deux".toList), (100, "cents".toList), (1000000, "millions".toList),
      (71, "soixante et onze".toList)] (by decide +kernel) (by decide) (by decide +kernel)
      (by decide +kernel)
  have spaced : Respaces "deux cents millions soixante et onze".toList
      "Deux-cents MILLIONS, soixante  et onze".toList :=
    respaces_of_pieces [("Deux".toList, ['-']), ("cents".toList, [' ']),
      ("MILLIONS".toList, [',', ' ']), ("soixante".toList, [' ', ' ']), ("et".toList, [' '])]
      "onze".toList (by decide +kernel) (by decide +kernel) (by decide +kernel)
      (by decide +kernel) (by decide +kernel)
  have meet : Names (numeral 10010) "dix mille dix".toList :=
    names_of_subset [(10, "dix".toList), (1000, "mille".toList), (10, "dix".toList)]
      (by decide +kernel) (by decide) (by decide +kernel) (by decide +kernel)
  have short : Respaces "dix mille dix".toList "dix-mille, dix".toList :=
    respaces_of_pieces [("dix".toList, ['-']), ("mille".toList, [',', ' '])] "dix".toList
      (by decide +kernel) (by decide +kernel) (by decide +kernel) (by decide +kernel)
      (by decide +kernel)
  constructor
  · exact (reads_of_respaces (by decide) apart spaced).2.1 (by decide +kernel)
  · exact (reads_of_respaces (by decide) meet short).2.2 (by decide +kernel)

theorem mem_names_of_mem_belowThousand {n value : Nat} (small : n < 1000)
    (member : value ∈ belowThousand n) : value ∈ names.map Prod.fst := by
  have below : ∀ m < 100, ∀ value ∈ belowHundred m, value ∈ names.map Prod.fst := by
    decide +kernel
  have above : ∀ digit < 10, ∀ value ∈ hundreds digit, value ∈ names.map Prod.fst := by
    decide +kernel
  rcases List.mem_append.1 member with front | back
  · exact above _ (by omega) value front
  · exact below _ (by omega) value back

theorem mem_names_of_mem_counted {count exponent value : Nat} (small : count < 1000)
    (scale : 10 ^ exponent ∈ names.map Prod.fst) (member : value ∈ counted count exponent) :
    value ∈ names.map Prod.fst := by
  unfold counted at member
  split at member
  · simp at member
  · split at member
    · rw [List.mem_singleton.1 member]
      exact scale
    · rcases List.mem_append.1 member with counts | last
      · exact mem_names_of_mem_belowThousand small counts
      · rw [List.mem_singleton.1 last]
        exact scale

theorem mem_names_of_mem_numeral {n value : Nat} (small : n < 10 ^ 12)
    (member : value ∈ numeral n) : value ∈ names.map Prod.fst := by
  unfold numeral at member
  split at member
  · rw [List.mem_singleton.1 member]
    decide +kernel
  · simp only [List.mem_append] at member
    rcases member with ((milliards | millions) | thousands) | rest
    · exact mem_names_of_mem_counted (by omega) (by decide +kernel) milliards
    · exact mem_names_of_mem_counted (by omega) (by decide +kernel) millions
    · exact mem_names_of_mem_counted (by omega) (by decide +kernel) thousands
    · exact mem_names_of_mem_belowThousand (by omega) rest

theorem exists_names {n : Nat} (small : n < 10 ^ 12) : ∃ normal, Names (numeral n) normal := by
  have general : ∀ values : List Nat, values ≠ [] → (∀ value ∈ values, value ∈ names.map Prod.fst) →
      ∃ normal, Names values normal := by
    intro values nonempty named
    induction values with
    | nil => exact absurd rfl nonempty
    | cons value values ih =>
      obtain ⟨⟨_, name⟩, listed, rfl⟩ := List.mem_map.1 (named _ (List.mem_cons_self ..))
      cases values with
      | nil => exact ⟨_, .last listed⟩
      | cons next others =>
        obtain ⟨normal, further⟩ :=
          ih (by simp) fun part member => named part (List.mem_cons_of_mem _ member)
        exact ⟨_, .cons listed further⟩
  exact general _ (numeral_ne_nil small) fun _ => mem_names_of_mem_numeral small

theorem Respaces.append {more extra : List Char} (front : Respaces normal text) (gap : List Char)
    (nonempty : gap ≠ []) (all : gap.all isWordGap = true) (back : Respaces more extra) :
    Respaces (normal ++ ' ' :: more) (text ++ gap ++ extra) := by
  induction front with
  | last whole => exact .cons gap whole nonempty all back
  | cons between whole filled gaps _ ih => simpa using Respaces.cons between whole filled gaps ih

theorem respaces_intercalate {parts : List (List Char)} (nonempty : parts ≠ [])
    (whole : ∀ part ∈ parts, isWord part = true ∧ part.map Char.toLower = part) :
    Respaces ([' '].intercalate parts) ([' '].intercalate parts) := by
  induction parts with
  | nil => exact absurd rfl nonempty
  | cons part parts ih =>
    obtain ⟨isPart, lowered⟩ := whole part (List.mem_cons_self ..)
    have alone : Respaces part part := by simpa [lowered] using Respaces.last isPart
    cases parts with
    | nil => simpa using alone
    | cons next others =>
      have further := ih (by simp) fun other member => whole other (List.mem_cons_of_mem _ member)
      simpa [List.intercalate_cons_cons] using alone.append [' '] (by simp) (by decide) further

/-- A name is a text of itself. -/
theorem respaces_self (named : Names values normal) : Respaces normal normal := by
  have worded : ∀ entry ∈ names, words (· == ' ') entry.2 ≠ [] ∧
      (∀ part ∈ words (· == ' ') entry.2, isWord part = true ∧ part.map Char.toLower = part) ∧
      [' '].intercalate (words (· == ' ') entry.2) = entry.2 := by
    decide +kernel
  have alone {entry : Nat × List Char} (listed : entry ∈ names) : Respaces entry.2 entry.2 := by
    obtain ⟨nonempty, whole, same⟩ := worded entry listed
    have self := respaces_intercalate nonempty whole
    rwa [same] at self
  induction named with
  | last listed => exact alone listed
  | cons listed _ ih => simpa using (alone listed).append [' '] (by simp) (by decide) ih

/-- Every number below 10^12 has a numeral. -/
theorem exists_respaces {n : Nat} (small : n < 10 ^ 12) :
    ∃ normal text, Names (numeral n) normal ∧ Respaces normal text := by
  obtain ⟨normal, named⟩ := exists_names small
  exact ⟨normal, normal, named, respaces_self named⟩

end Numeral.French

end Phrasebook
