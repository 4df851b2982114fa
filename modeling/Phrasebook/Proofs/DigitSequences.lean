import Phrasebook.Proofs.DigitItems
import Phrasebook.Proofs.EnglishSpelling
import Phrasebook.Proofs.SpanishSpelling

/-! Digits that are said or written one after the other.

In every language the items of a digit sequence are found as they are, each up to the space
after it. So the sequence is read as the digits of all its items, with the leading zeros of
its digit strings.
-/

set_option autoImplicit false

namespace Phrasebook

open Text

namespace Numeral

namespace DigitItem

variable {scheme : Scheme} {item : DigitItem} {items : List DigitItem} {rest : List Char}

theorem chinese_space (before : Option Char) (previous : Option Token) (rest : List Char) :
    Lexeme.chinese Scheme.chinese.lexicon.vocabulary before previous (' ' :: rest) = .gap := by
  simp only [Lexeme.chinese]
  rw [Trie.longest?_eq_longestWhere?, longestWhere?_sign List.mem_cons_self,
    List.takeWhile_cons_of_neg (by simp [not_isDecimal_of_isWordGap (c := ' ') rfl])]
  rfl

/-- How a scanner finds stored words and digit strings, each up to a space or the end of the text:
it does not come after a multiplier or another word. -/
structure Finds (scanner : Lexeme.Scanner) (scheme : Scheme) : Prop where
  gap : ∀ before previous rest, scanner before previous (' ' :: rest) = .gap
  word : ∀ entry, scheme.IsStored entry → ∀ rest, scheme.EndsBefore entry.word rest → Spaced rest →
    ∀ before previous, (before.all fun c => c == ' ') = true →
      previous.any (Token.isPowerFrom 10) = false →
        scanner before previous (entry.word ++ rest) = .token entry.word.length entry.token
  digits : ∀ text, (DigitItem.digits text).IsOf scheme → ∀ rest, Spaced rest → ∀ before previous,
    (before.all fun c => c == ' ') = true →
      scanner before previous (text ++ rest) = .token text.length (.written text)

theorem Finds.written {scanner : Lexeme.Scanner} (finds : Finds scanner scheme)
    (isOf : item.IsOf scheme) (onward : Onward scheme rest) {before : Option Char}
    {previous : Option Token} (free : (before.all fun c => c == ' ') = true)
    (plain : previous.any (Token.isPowerFrom 10) = false) :
    scanner before previous (item.written ++ rest) = .token item.written.length item.token := by
  cases item with
  | word entry =>
    exact finds.word entry (Scheme.isDigitWord (mem_digitWords isOf)).toIsStored rest
      (endsBefore_onward isOf onward) onward.spaced before previous free plain
  | digits text => exact finds.digits text isOf rest onward.spaced before previous free

/-- English words start and end between spaces. -/
theorem edges_of_isSolid {part : List Char} (solid : IsSolid part) (spaced : Spaced rest)
    {before : Option Char} (free : (before.all fun c => c == ' ') = true) :
    isWordEdge before (part ++ rest).head? = true ∧
      isWordEdge ((part ++ rest).take part.length).getLast?
        ((part ++ rest).drop part.length).head? = true := by
  have letters : ∀ c ∈ part, isWordChar c = true := fun c member => (solid.letters c member).1
  have outside : before.any isWordChar = false := by
    cases before with
    | none => rfl
    | some c =>
      rw [show c = ' ' by simpa using free, Option.any_some]
      exact not_isWordChar_of_isWordGap rfl
  refine ⟨English.isWordEdge_start letters solid.nonempty outside, ?_⟩
  rw [List.take_left, List.drop_left]
  refine English.isWordEdge_end letters solid.nonempty fun c ahead => ?_
  rw [spaced c ahead]
  rfl

theorem finds_english :
    Finds (Lexeme.english Scheme.english.lexicon.vocabulary) .english where
  gap := English.english_gap rfl
  word := by
    intro entry known rest ends spaced before previous free _
    have found : Scheme.english.lexicon.vocabulary.longestWhere? (fun length =>
        isWordEdge before (entry.word ++ rest).head? &&
          isWordEdge ((entry.word ++ rest).take length).getLast?
            ((entry.word ++ rest).drop length).head?) (entry.word ++ rest) =
        some (entry.word.length, entry.token) :=
      Trie.longestWhere?_append known.stored
        (Bool.and_eq_true_iff.2 (edges_of_isSolid known.isSolid spaced free)) ends
    simp only [Lexeme.english, found]
  digits := by
    intro text isOf rest spaced before previous free
    have signs : (text ++ rest).takeWhile isDecimal = text :=
      takeWhile_digits isOf (fun _ listed => (Scheme.isSign listed).decimal)
        (not_isDecimal_of_isWordGap rfl) spaced
    obtain ⟨starts, ends⟩ := edges_of_isSolid (isSolid_digits isOf) spaced free
    simp only [Lexeme.english, longestWhere?_digits isOf, signs]
    rw [starts, ends, explicit?_digits isOf]
    simp [isOf.1, Lexeme.ofToken?]

theorem ends_of_spaced (spaced : Spaced rest) (part : List Char) :
    ((part ++ rest).drop part.length).head?.all (· == ' ') = true := by
  rw [List.drop_left, Option.all_eq_true]
  exact fun c ahead => beq_iff_eq.2 (spaced c ahead)

/-- No solid part begins with a blank. -/
theorem head_of_isSolid {part : List Char} (solid : IsSolid part) (rest : List Char) :
    (part ++ rest).head? ≠ some ' ' ∧ (part ++ rest).head?.any isBlank = false := by
  obtain ⟨c, others, rfl⟩ := List.exists_cons_of_ne_nil solid.nonempty
  have letter := solid.not_isWordGap c List.mem_cons_self
  constructor
  · rintro ⟨⟩
    cases letter
  · simp only [isWordGap, Bool.or_eq_false_iff] at letter
    exact letter.1.1

theorem finds_french : Finds (Lexeme.french Scheme.french.lexicon.vocabulary) .french where
  gap := fun _ _ _ => rfl
  word := by
    intro entry known rest ends spaced before previous _ _
    have found : Scheme.french.lexicon.vocabulary.longestWhere?
        (fun length => ((entry.word ++ rest).drop length).head?.all (· == ' '))
        (entry.word ++ rest) = some (entry.word.length, entry.token) :=
      Trie.longestWhere?_append known.stored (ends_of_spaced spaced _) ends
    simp only [Lexeme.french]
    rw [if_neg (head_of_isSolid known.isSolid rest).1, found]
  digits := by
    intro text isOf rest spaced before previous _
    have signs : (text ++ rest).takeWhile Token.isDigit = text :=
      takeWhile_digits isOf (fun _ listed => (Scheme.isSign listed).digit) rfl spaced
    simp only [Lexeme.french]
    rw [if_neg (head_of_isSolid (isSolid_digits isOf) rest).1, longestWhere?_digits isOf, signs,
      explicit?_digits isOf]
    exact if_pos (Bool.and_eq_true_iff.2 ⟨by simp [isOf.1], ends_of_spaced spaced text⟩)

theorem finds_japanese :
    Finds (Lexeme.japanese Scheme.japanese.lexicon.vocabulary) .japanese where
  gap := fun _ _ _ => rfl
  word := by
    intro entry known rest ends _ before previous _ _
    have none : (entry.word ++ rest).takeWhile (fun c => (Lexeme.asciiDigit? c).isSome) = [] := by
      obtain ⟨c, others, eq⟩ := List.exists_cons_of_ne_nil known.nonempty
      have letter := Scheme.asciiDigit?_of_letter
        (known.letters c (by rw [eq]; exact List.mem_cons_self))
      rw [eq, List.cons_append, List.takeWhile_cons_of_neg (by simp [letter])]
    have found : Scheme.japanese.lexicon.vocabulary.longest? (entry.word ++ rest) =
        some (entry.word.length, entry.token) := by
      rw [Trie.longest?_eq_longestWhere?]
      exact Trie.longestWhere?_append known.stored rfl ends
    simp only [Lexeme.japanese]
    rw [if_neg (by rw [(head_of_isSolid known.isSolid rest).2]; exact Bool.false_ne_true), none,
      found]
    rfl
  digits := by
    intro text isOf rest spaced before previous _
    have signs : (text ++ rest).takeWhile (fun c => (Lexeme.asciiDigit? c).isSome) = text :=
      takeWhile_digits isOf (fun c listed => by rw [(Scheme.isSign listed).ascii]; rfl)
        (by decide) spaced
    have ascii : text.filterMap Lexeme.asciiDigit? = text := by
      rw [List.filterMap_congr fun c member =>
        (Scheme.isSign (mem_signs_of_digits isOf c member)).ascii]
      exact List.filterMap_some
    simp only [Lexeme.japanese]
    rw [if_neg (by rw [(head_of_isSolid (isSolid_digits isOf) rest).2]; exact Bool.false_ne_true),
      signs, ascii, explicit?_digits isOf]

theorem finds_chinese :
    Finds (Lexeme.chinese Scheme.chinese.lexicon.vocabulary) .chinese where
  gap := chinese_space
  word := by
    intro entry known rest ends _ before previous _ plain
    have found : Scheme.chinese.lexicon.vocabulary.longest? (entry.word ++ rest) =
        some (entry.word.length, entry.token) := by
      rw [Trie.longest?_eq_longestWhere?]
      exact Trie.longestWhere?_append known.stored rfl ends
    simp only [Lexeme.chinese]
    rw [found]
    -- A zero stays a digit: no multiplier comes before it.
    simp [plain]
  digits := by
    intro text isOf rest spaced before previous _
    have signs : (text ++ rest).takeWhile isDecimal = text :=
      takeWhile_digits isOf (fun _ listed => (Scheme.isSign listed).decimal)
        (not_isDecimal_of_isWordGap rfl) spaced
    have ascii : text.mapM Lexeme.asciiDigit? = some text := by
      have same := mem_signs_of_digits isOf
      clear isOf signs
      induction text with
      | nil => rfl
      | cons c text ih =>
        obtain ⟨first, others⟩ := List.forall_mem_cons.1 same
        rw [List.mapM_cons, (Scheme.isSign first).ascii, ih others]
        rfl
    simp only [Lexeme.chinese]
    rw [Trie.longest?_eq_longestWhere?, longestWhere?_digits isOf, signs, ascii,
      if_pos (by simp [isOf.1]), Option.bind_some, explicit?_digits isOf]
    rfl

theorem scan_items {scanner : Lexeme.Scanner} (finds : Finds scanner scheme)
    (each : ∀ item ∈ items, item.IsOf scheme) {before : Option Char} {previous : Option Token}
    (free : (before.all fun c => c == ' ') = true)
    (plain : previous.any (Token.isPowerFrom 10) = false) :
    Lexeme.scan scanner before previous ([' '].intercalate (items.map written)) =
      some (items.map token) := by
  induction items generalizing before previous with
  | nil =>
    rw [List.map_nil, List.intercalate_nil, Lexeme.scan]
    rfl
  | cons item items ih =>
    obtain ⟨first, others⟩ := List.forall_mem_cons.1 each
    have nonempty := (isSolid_written first).nonempty
    cases items with
    | nil =>
      have found := Lexeme.scan_append_of_token nonempty
        (finds.written first (.inl rfl) free plain)
      rw [List.append_nil] at found
      rw [List.map_singleton, List.intercalate_singleton, found, Lexeme.scan]
      rfl
    | cons next more =>
      -- Of what comes after the item, its scanner needs the space and the next first character.
      obtain ⟨c, letters, starts, known⟩ := exists_first (others next List.mem_cons_self)
      have onward : Onward scheme ([' '] ++ [' '].intercalate ((next :: more).map written)) := by
        rw [List.map_cons, intercalate_cons, starts]
        exact .inr ⟨c, _, known, rfl⟩
      have split : [' '].intercalate ((item :: next :: more).map written) =
          item.written ++ ([' '] ++ [' '].intercalate ((next :: more).map written)) := by
        rw [List.map_cons, List.map_cons, List.intercalate_cons_cons, List.append_assoc]
      have behind : ((some ' ').all fun c => c == ' ') = true := rfl
      have unscaled : (some item.token).any (Token.isPowerFrom 10) = false :=
        (isSeparate_token first).unscaled
      rw [split, Lexeme.scan_append_of_token nonempty (finds.written first onward free plain),
        List.singleton_append, Lexeme.scan_cons_of_gap (finds.gap _ _ _), ih others behind unscaled]
      rfl

theorem mem_intercalate {parts : List (List Char)} {c : Char}
    (member : c ∈ [' '].intercalate parts) : c = ' ' ∨ ∃ part ∈ parts, c ∈ part := by
  cases parts with
  | nil => cases member
  | cons part parts =>
    rw [intercalate_cons, List.mem_append, List.mem_flatMap] at member
    rcases member with first | ⟨other, listed, inside⟩
    · exact .inr ⟨part, List.mem_cons_self, first⟩
    · rcases List.mem_append.1 inside with space | letter
      · exact .inl (List.mem_singleton.1 space)
      · exact .inr ⟨other, List.mem_cons_of_mem _ listed, letter⟩

section

variable {parts : List (List Char)} (solid : ∀ part ∈ parts, IsSolid part)
include solid

theorem letters_parts : ∀ c ∈ [' '].intercalate parts,
    lowerChar c = [c] ∧ (c = ' ' ∨ isWordGap c = false) := by
  intro c member
  rcases mem_intercalate member with rfl | ⟨part, listed, inside⟩
  · exact ⟨lowerChar_of_isCaseless rfl, .inl rfl⟩
  · exact ⟨((solid part listed).letters c inside).2,
      .inr ((solid part listed).not_isWordGap c inside)⟩

theorem lower_parts : lower ([' '].intercalate parts) = [' '].intercalate parts :=
  lower_of_lowered fun c member => (letters_parts solid c member).1

/-- The parts are the words of their sequence. -/
theorem words_parts {gap : Char → Bool} (space : gap ' ' = true)
    (within : ∀ c, gap c = true → isWordGap c = true) :
    words gap ([' '].intercalate parts) = parts := by
  refine words_intercalate (List.cons_ne_nil _ _) (by simpa using space) fun part listed => ?_
  refine ⟨(solid part listed).nonempty, fun c member => ?_⟩
  rw [← Bool.not_eq_true]
  intro blank
  have apart := (solid part listed).not_isWordGap c member
  rw [within c blank] at apart
  cases apart

theorem frenchText_parts :
    Scheme.frenchText ([' '].intercalate parts) = [' '].intercalate parts := by
  have undivided :
      ([' '].intercalate parts).map (fun c => if c == '-' || c == ',' then ' ' else c) =
        [' '].intercalate parts := by
    rw [List.map_congr_left fun c member => ?_]
    · exact List.map_id _
    · rcases (letters_parts solid c member).2 with rfl | solid
      · rfl
      · simp only [isWordGap, Bool.or_eq_false_iff] at solid
        simp [solid]
  have blanks : ∀ c, isBlank c = true → isWordGap c = true := fun c blank => by
    simp [isWordGap, blank]
  rw [Scheme.frenchText, lower_parts solid, undivided, words_parts solid (by decide) blanks]

theorem spanishWords_parts :
    words Scheme.isSpanishGap (lower ([' '].intercalate parts)) = parts := by
  rw [lower_parts solid,
    words_parts solid (by decide) fun c gap => by rwa [← Spanish.isSpanishGap_eq]]

end

theorem wordToken?_of_isStored {entry : Entry} (known : scheme.IsStored entry) :
    Scheme.wordToken? scheme.lexicon.vocabulary entry.word = some entry.token := by
  have lettered : entry.word.all Token.isDigit = false := by
    obtain ⟨c, others, eq⟩ := List.exists_cons_of_ne_nil known.nonempty
    have letter := Scheme.asciiDigit?_of_letter
      (known.letters c (by rw [eq]; exact List.mem_cons_self))
    rw [← Bool.not_eq_true, eq, List.all_cons, Bool.and_eq_true]
    rintro ⟨digit, -⟩
    simp [Lexeme.asciiDigit?, digit] at letter
  rw [Scheme.wordToken?, if_neg (by simp [lettered]), known.stored]

theorem wordToken?_digits {text : List Char} (isOf : (digits text).IsOf scheme) :
    Scheme.wordToken? scheme.lexicon.vocabulary text = some (.written text) := by
  rw [Scheme.wordToken?, if_pos isOf.2.2.1, explicit?_digits isOf]

theorem wordToken?_written (isOf : item.IsOf scheme) :
    Scheme.wordToken? scheme.lexicon.vocabulary item.written = some item.token := by
  cases item with
  | word entry => exact wordToken?_of_isStored (Scheme.isDigitWord (mem_digitWords isOf)).toIsStored
  | digits text => exact wordToken?_digits isOf

theorem tokenize_items (nonempty : items ≠ []) (each : ∀ item ∈ items, item.IsOf scheme) :
    scheme.tokenize scheme.lexicon.vocabulary ([' '].intercalate (items.map written)) =
      some (items.map token) := by
  have solid : ∀ part ∈ items.map written, IsSolid part := by
    intro part listed
    obtain ⟨item, member, rfl⟩ := List.mem_map.1 listed
    exact isSolid_written (each item member)
  have filled : (items.map token).isEmpty = false := by simp [nonempty]
  have kept : (some (items.map token)).filter (fun tokens => !tokens.isEmpty) =
      some (items.map token) := by
    rw [Option.filter_some, filled]
    rfl
  cases scheme with
  | english =>
    rw [Scheme.tokenize, lower_parts solid, Lexeme.tokens?, scan_items finds_english each rfl rfl,
      kept]
  | spanish =>
    have looked : (items.map written).mapM (Scheme.wordToken? Scheme.spanish.lexicon.vocabulary) =
        some (items.map token) := by
      clear filled kept nonempty solid
      induction items with
      | nil => rfl
      | cons item items ih =>
        obtain ⟨first, others⟩ := List.forall_mem_cons.1 each
        rw [List.map_cons, List.mapM_cons, wordToken?_written first, ih others]
        rfl
    rw [Scheme.tokenize, spanishWords_parts solid, looked, kept]
  | french =>
    rw [Scheme.tokenize, frenchText_parts solid, Lexeme.tokens?,
      scan_items finds_french each rfl rfl, kept]
  | japanese =>
    rw [Scheme.tokenize, Lexeme.tokens?, scan_items finds_japanese each rfl rfl, kept]
  | chinese =>
    rw [Scheme.tokenize, Lexeme.tokens?, scan_items finds_chinese each rfl rfl, kept]

end DigitItem

/-- In every language a sequence of words for digits and of digit strings, with single spaces
between them, is read as its digits one after the other. -/
theorem Scheme.read?_digits (scheme : Scheme) {items : List DigitItem} (nonempty : items ≠ [])
    (each : ∀ item ∈ items, item.IsOf scheme) :
    scheme.reader.read? ([' '].intercalate (items.map DigitItem.written)) =
      some (items.flatMap DigitItem.reading) := by
  have separate : ∀ token ∈ items.map DigitItem.token, token.IsSeparate := by
    intro token listed
    obtain ⟨item, member, rfl⟩ := List.mem_map.1 listed
    exact DigitItem.isSeparate_token (each item member)
  have readings : (items.map DigitItem.token).flatMap Token.reading =
      items.flatMap DigitItem.reading := by
    rw [List.flatMap_map]
    exact List.flatMap_congr fun item member => DigitItem.reading_token (each item member)
  rw [show scheme.reader.read? ([' '].intercalate (items.map DigitItem.written)) =
    (scheme.tokenize scheme.lexicon.vocabulary
      ([' '].intercalate (items.map DigitItem.written))).bind (scheme.evaluate .word64) from rfl,
    DigitItem.tokenize_items nonempty each, Option.bind_some,
    scheme.evaluate_of_isSeparate (by simpa using nonempty) separate, readings]

/-- A French word that longer entries begin with, and a Chinese zero. -/
theorem Scheme.read?_digits_mixed :
    (∀ item ∈ [DigitItem.word (.number "quatre" 4), .digits "007".toList, .word (.number "zéro" 0)],
      item.IsOf .french) ∧
    Scheme.french.reader.read? "quatre 007 zéro".toList = some "40070".toList ∧
    (∀ item ∈ [DigitItem.digits "10".toList, .word (.number "零" 0), .word (.number "九" 9)],
      item.IsOf .chinese) ∧
    Scheme.chinese.reader.read? "10 零 九".toList = some "1009".toList := by
  have french : ∀ item ∈ [DigitItem.word (.number "quatre" 4), .digits "007".toList,
      .word (.number "zéro" 0)], item.IsOf .french := by
    decide +kernel
  have chinese : ∀ item ∈ [DigitItem.digits "10".toList, .word (.number "零" 0),
      .word (.number "九" 9)], item.IsOf .chinese := by
    decide +kernel
  exact ⟨french, Scheme.read?_digits .french (List.cons_ne_nil _ _) french, chinese,
    Scheme.read?_digits .chinese (List.cons_ne_nil _ _) chinese⟩

end Numeral

end Phrasebook
