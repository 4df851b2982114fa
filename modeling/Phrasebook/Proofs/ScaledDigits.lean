import Phrasebook.Proofs.DigitSequences
import Phrasebook.Proofs.PositionalRooms

/-! A digit string before a scale word.

In every language the two are one number, the product of both, which is read if it has 64 bits.
Only a zero is not told from a scale word on its own: both count it once.
-/

set_option autoImplicit false

namespace Phrasebook

open Text

namespace Numeral

/-- A first token and one that scales it are one number, if the product is held. -/
theorem Grammar.resolve_pair {g : Grammar} {first second : Token} {state : g.State}
    {held : Option Nat} {next : Nat → g.State} {order : ReadingOrder}
    (plain : first.isConnector = false) (last : second.isConnector = false)
    (starts : g.push g.initial first (some second) = .joined state)
    (scales : g.push state second none = .ofHeld held next)
    (value : ∀ total, held = some total → g.value? (next total) = some total) :
    g.resolve order [first, second] = held.map (Nat.toDigits 10) := by
  rw [resolve, List.head?_cons, Option.all_some, if_neg (by simp [plain])]
  cases held with
  | none =>
    have beyond : g.segment [first, second] = none := by
      simp only [segment, segmentFrom, List.head?_cons, List.head?_nil, starts, scales,
        Verdict.ofHeld]
    rw [beyond]
    rfl
  | some total =>
    have joined : g.replay g.initial [first, second] = .joined (next total) := by
      simp only [replay, List.head?_cons, List.head?_nil, starts, scales, Verdict.ofHeld,
        Verdict.bind]
    have whole : g.segment [first, second] = some [[first, second]] := by
      rw [segment, segmentFrom_of_replay joined, List.nil_append, close_eq rfl last]
    have rendered : g.render? [first, second] = some (Nat.toDigits 10 total) := by
      rw [render?, groupValue?, joined]
      · simp only [value total rfl]
        rfl
      · simp
    rw [whole]
    simp [rendered, ReadingOrder.layOut_eq_flatten]

/-- What a scale word makes of the value before it. -/
def scaled (value scale : Nat) : Nat := (if value = 0 then 1 else value) * scale

/-- What is held has room for itself. -/
theorem Capacity.hold?_word64_of_hold? {value held : Nat} (holds : word64.hold? value = some held) :
    word64.hold? held = some held := by
  rwa [← eq_of_hold? holds] at holds

variable {text : List Char} {scale : Token}

theorem Western.resolve_scaled {rule : ConnectorRule}
    (fits : Token.decimalValue text < UInt64.size) (isScale : scale.isPowerFrom 1000 = true)
    (order : ReadingOrder) :
    (grammar .word64 rule).resolve order [.written text, scale] =
      (Capacity.word64.hold? (scaled (Token.decimalValue text) scale.value)).map
        (Nat.toDigits 10) := by
  obtain ⟨scales, large⟩ := isScale_iff.1 isScale
  have plain := Token.not_isConnector_of_isPowerFrom scales
  have starts : push .word64 rule initial (.written text) (some scale) =
      .joined ⟨0, Token.decimalValue text, (Token.written text).mask, 0, true⟩ := by
    have held := Capacity.holdsBelow_word64 _ fits
    rw [push, if_neg (by simp [Token.isConnector, Token.written]),
      if_neg (by simp [isMultiplier, Token.isPowerFrom, Token.written]), add,
      if_neg (by simp [initial])]
    simp [initial, Token.written, held, Verdict.ofHeld]
  have counts : push .word64 rule ⟨0, Token.decimalValue text, (Token.written text).mask, 0, true⟩
      scale none = .ofHeld (Capacity.word64.hold? (scaled (Token.decimalValue text) scale.value))
        fun held => ⟨held, 0, 0, scale.value, true⟩ := by
    rw [push, if_neg (by simp [plain]), if_pos scales, multiply, if_neg (by omega),
      if_neg (by simp)]
    simp only [base, scaled, Nat.zero_add]
  exact Grammar.resolve_pair rfl plain starts counts fun _ => Capacity.hold?_word64_of_hold?

theorem Positional.resolve_scaled {abbreviates : Bool} (isScale : scale.isPowerFrom 10000 = true)
    (order : ReadingOrder) :
    (grammar .word64 abbreviates).resolve order [.written text, scale] =
      (Capacity.word64.hold? (scaled (Token.decimalValue text) scale.value)).map
        (Nat.toDigits 10) := by
  obtain ⟨scales, large⟩ := isScale_iff.1 isScale
  have plain := Token.not_isConnector_of_isPowerFrom scales
  have starts : push .word64 initial (.written text) = .joined (initial.wait (.written text)) := by
    rw [push, if_neg (by simp [Token.isConnector, Token.written]),
      if_neg (by simp [isMultiplier, Token.isPowerFrom, Token.written]), add,
      if_neg (by simp [initial])]
    simp [initial]
  have counts : push .word64 (initial.wait (.written text)) scale =
      .ofHeld (Capacity.word64.hold? (scaled (Token.decimalValue text) scale.value))
        fun held => ⟨held, 0, 0, none, scale.value, scale.value, true⟩ := by
    rw [push, if_neg (by simp [plain]), if_pos scales, multiply, if_neg (by omega),
      if_neg (by simp [initial, wait])]
    simp [initial, wait, pendingValue, scaled, Token.written]
  exact Grammar.resolve_pair rfl plain starts counts fun _ => Capacity.hold?_word64_of_hold?

/-- A digit string and a scale word are the product of both, as long as it can be held. -/
theorem Scheme.evaluate_scaled (scheme : Scheme) (fits : Token.decimalValue text < UInt64.size)
    (isScale : scale.isPowerFrom scheme.leastScale = true) :
    scheme.evaluate .word64 [.written text, scale] =
      (Capacity.word64.hold? (scaled (Token.decimalValue text) scale.value)).map
        (Nat.toDigits 10) := by
  have single : Scheme.repeatsTen [.written text, scale] = false := by
    simp [Scheme.repeatsTen, Scheme.isTen, Token.written]
  cases scheme with
  | english | spanish | french =>
    rw [evaluate, isAmbiguous, single]
    exact Western.resolve_scaled fits isScale _
  | japanese | chinese => exact Positional.resolve_scaled isScale _

namespace Scheme

variable {scheme : Scheme} {entry : Entry}

/-- The scale words are stored with their letters. -/
theorem scales_checked (scheme : Scheme) :
    (scheme.lexicon.entries.filter fun entry => entry.token.isPowerFrom scheme.leastScale).all
      (fun entry => decide (scheme.lexicon.vocabulary.get? entry.word = some entry.token) &&
        (!entry.word.isEmpty && entry.word.all (inRanges letterRanges))) = true := by
  cases scheme <;>
    simp only [leastScale, lexicon, Lexicon.vocabulary, Lexicon.ofWords, Entry.number,
      Entry.connector, Lexicon.english, Lexicon.french, Lexicon.spanish, Lexicon.japanese,
      Lexicon.chinese, Lexicon.French.compounds, Lexicon.French.onBase, Lexicon.French.simple,
      Lexicon.French.units, Lexicon.French.teens, Lexicon.French.tens, Lexicon.French.highUnits,
      String.toList_append, String.reduceToList, List.map_cons, List.map_nil, List.flatMap_cons,
      List.flatMap_nil, List.drop_succ_cons, List.drop_zero, List.cons_append, List.nil_append] <;>
    decide +kernel

theorem isStored_of_isPowerFrom (listed : entry ∈ scheme.lexicon.entries)
    (isScale : entry.token.isPowerFrom scheme.leastScale = true) : scheme.IsStored entry := by
  have checked := List.all_eq_true.1 scheme.scales_checked entry
    (List.mem_filter.2 ⟨listed, isScale⟩)
  simp only [Bool.and_eq_true, decide_eq_true_eq] at checked
  obtain ⟨stored, nonempty, letters⟩ := checked
  exact ⟨stored, by simpa using nonempty, List.all_eq_true.1 letters⟩

/-- A digit string, a space and a stored word are found one after the other. -/
theorem scan_digits_word {scanner : Lexeme.Scanner} (finds : DigitItem.Finds scanner scheme)
    (isOf : (DigitItem.digits text).IsOf scheme) (known : scheme.IsStored entry) :
    Lexeme.tokens? scanner (text ++ ' ' :: entry.word) = some [.written text, entry.token] := by
  have spaced : DigitItem.Spaced (' ' :: entry.word) := fun c ahead => (Option.some.inj ahead).symm
  have first := finds.digits text isOf _ spaced none none rfl
  have second := finds.word entry known [] (.inl rfl) (fun _ ahead => by cases ahead) (some ' ')
    (some (.written text)) rfl rfl
  have ends := Lexeme.scan_append_of_token known.nonempty second
  rw [List.append_nil] at ends
  rw [Lexeme.tokens?, Lexeme.scan_append_of_token isOf.1 first,
    Lexeme.scan_cons_of_gap (finds.gap _ _ _), ends, Lexeme.scan]
  rfl

theorem tokenize_digits_word (isOf : (DigitItem.digits text).IsOf scheme)
    (known : scheme.IsStored entry) :
    scheme.tokenize scheme.lexicon.vocabulary (text ++ ' ' :: entry.word) =
      some [.written text, entry.token] := by
  have solid : ∀ part ∈ [text, entry.word], IsSolid part := by
    simpa using ⟨DigitItem.isSolid_digits isOf, known.isSolid⟩
  have parts : [' '].intercalate [text, entry.word] = text ++ ' ' :: entry.word := by simp
  cases scheme with
  | english =>
    rw [tokenize, ← parts, DigitItem.lower_parts solid, parts]
    exact scan_digits_word DigitItem.finds_english isOf known
  | spanish =>
    rw [tokenize, ← parts, DigitItem.spanishWords_parts solid, List.mapM_cons, List.mapM_cons,
      DigitItem.wordToken?_digits isOf, DigitItem.wordToken?_of_isStored known]
    rfl
  | french =>
    rw [tokenize, ← parts, DigitItem.frenchText_parts solid, parts]
    exact scan_digits_word DigitItem.finds_french isOf known
  | japanese => exact scan_digits_word DigitItem.finds_japanese isOf known
  | chinese => exact scan_digits_word DigitItem.finds_chinese isOf known

/-- A digit string, a space and a scale word are read as the product of both if it has 64 bits, and
as nothing otherwise. After zero the scale word counts once. -/
theorem read?_scaled_digits (scheme : Scheme) (nonempty : text ≠ []) (short : text.length ≤ 20)
    (digits : text.all Token.isDigit = true) (fits : Token.decimalValue text < 2 ^ 64)
    (listed : entry ∈ scheme.lexicon.entries)
    (isScale : entry.token.isPowerFrom scheme.leastScale = true) :
    (Token.decimalValue text ≠ 0 →
        scheme.reader.read? (text ++ ' ' :: entry.word) =
          if Token.decimalValue text * entry.token.value < 2 ^ 64 then
            some (Nat.toDigits 10 (Token.decimalValue text * entry.token.value))
          else none) ∧
      (Token.decimalValue text = 0 →
        scheme.reader.read? (text ++ ' ' :: entry.word) =
          some (Nat.toDigits 10 entry.token.value)) := by
  have read : scheme.reader.read? (text ++ ' ' :: entry.word) =
      (Capacity.word64.hold? (scaled (Token.decimalValue text) entry.token.value)).map
        (Nat.toDigits 10) := by
    have found := tokenize_digits_word ⟨nonempty, short, digits, fits⟩
      (isStored_of_isPowerFrom listed isScale)
    exact (congrArg (Option.bind · (scheme.evaluate .word64)) found).trans
      (scheme.evaluate_scaled fits isScale)
  rw [read, Capacity.hold?_word64]
  constructor
  · intro some
    rw [scaled, if_neg some]
    show Option.map _ (if _ < 2 ^ 64 then _ else _) = _
    split <;> rfl
  · intro zero
    have held : ∀ entry ∈ scheme.lexicon.entries, entry.token.value < UInt64.size := by
      cases scheme <;> decide +kernel
    rw [scaled, if_pos zero, Nat.one_mul, if_pos (held entry listed), Option.map_some]

/-- The most thousands, one more than these, and none. -/
theorem read?_scaled_thousands :
    english.reader.read? "18446744073709551 thousand".toList = some "18446744073709551000".toList ∧
      english.reader.read? "18446744073709552 thousand".toList = none ∧
      english.reader.read? "000 thousand".toList = some "1000".toList := by
  have listed : Entry.number "thousand" 1000 ∈ english.lexicon.entries := by decide +kernel
  have isScale : (Entry.number "thousand" 1000).token.isPowerFrom english.leastScale = true := by
    decide +kernel
  have most := read?_scaled_digits english (show "18446744073709551".toList ≠ [] by decide)
    (by decide) (by decide) (by decide +kernel) listed isScale
  have beyond := read?_scaled_digits english (show "18446744073709552".toList ≠ [] by decide)
    (by decide) (by decide) (by decide +kernel) listed isScale
  have zero := read?_scaled_digits english (show "000".toList ≠ [] by decide) (by decide)
    (by decide) (by decide +kernel) listed isScale
  exact ⟨(most.1 (by decide +kernel)).trans (by decide +kernel),
    (beyond.1 (by decide +kernel)).trans (by decide +kernel),
    (zero.2 (by decide +kernel)).trans (by decide +kernel)⟩

/-- A zero before a scale word is lost in both ways of putting numbers together. -/
theorem read?_zero_thousand :
    english.reader.read? "0 thousand".toList = some "1000".toList ∧
      chinese.reader.read? "0 万".toList = some "10000".toList ∧
      Token.decimalValue "0".toList * (Entry.number "thousand" 1000).token.value = 0 := by
  decide +kernel

end Scheme

end Numeral

end Phrasebook
