import Phrasebook.Proofs.SpanishSpelling
import Phrasebook.Proofs.StackedScales

/-! Numerals before a scale word.

A numeral that is one section is scaled by the word for a million, or by 亿. A larger one has a
scale word of its own, and the one after it starts another number: "dos mil millones" is read as
2000 and 1000000.
-/

set_option autoImplicit false

namespace Phrasebook.Numeral

namespace Spanish

open Western

/-- The words of a number below a million, with the last one as it stands before a scale word or
as it stands at the end. -/
def coefficient (short : Bool) (n : Nat) : List Entry :=
  thousands (n / 1000) ++ belowThousand short (n % 1000)

/-- The scale word for a million, after so many. -/
def million (n : Nat) : Entry := .number (if n = 1 then "millón" else "millones") (10 ^ 6)

variable {n : Nat} (short : Bool)

theorem coefficient_eq_numeral (positive : 0 < n) (small : n < 10 ^ 6) :
    coefficient false n = numeral n := by
  have none : n / 10 ^ 6 = 0 := Nat.div_eq_of_lt small
  have count : n / 1000 % 1000 = n / 1000 := Nat.mod_eq_of_lt (by omega)
  rw [numeral, if_neg (by omega), none, count]
  rfl

theorem coefficient_of_lt (small : n < 1000) : coefficient short n = belowThousand short n := by
  rw [coefficient, Nat.div_eq_of_lt small, Nat.mod_eq_of_lt small]
  rfl

theorem coefficient_subset (small : n < 10 ^ 6) : coefficient short n ⊆ names :=
  List.append_subset.2 ⟨thousands_subset (by omega), belowThousand_subset short (by omega)⟩

theorem million_mem_names (n : Nat) : million n ∈ names := by
  rw [million]
  split <;> simp [names]

/-- A scale word does not stand for ten. -/
theorem tensMeet_concat_million {words : List Entry} (count : Nat) :
    TensMeet (words ++ [million count]) ↔ TensMeet words := by
  have inside (place : Nat) : (words ++ [million count])[place]? = some (.number "diez" 10) ↔
      words[place]? = some (.number "diez" 10) := by
    rw [List.getElem?_append]
    split
    · exact Iff.rfl
    · next beyond =>
      rw [List.getElem?_eq_none (Nat.le_of_not_lt beyond)]
      refine iff_of_false (fun found => ?_) (by simp)
      have last := List.mem_singleton.1 (List.mem_of_getElem? found)
      have value : 10 = 10 ^ 6 := congrArg (fun entry => entry.token.value) last
      exact absurd value (by decide)
  simp only [TensMeet, inside]

/-- The last word of a number below a hundred. -/
theorem exists_last_belowHundred (positive : 0 < n) (small : n < 100) :
    ∃ front name word, belowHundred short n = front ++ [.number name word] ∧
      0 < word ∧ word ≤ n := by
  rw [belowHundred, if_neg (by omega)]
  split
  · exact ⟨[], _, n, rfl, positive, Nat.le_refl n⟩
  · split
    · exact ⟨[], _, n / 10 * 10, rfl, by omega, by omega⟩
    · exact ⟨[_, _], _, n % 10, rfl, by omega, by omega⟩

theorem exists_last_belowThousand (positive : 0 < n) (small : n < 1000) :
    ∃ front name word, belowThousand short n = front ++ [.number name word] ∧
      0 < word ∧ word ≤ n := by
  rw [belowThousand]
  split
  · exact ⟨[], _, 100, rfl, by decide, by omega⟩
  · by_cases round : n % 100 = 0
    · rw [if_neg (by omega), round]
      exact ⟨[], hundredsNames[n / 100]?.getD "", n / 100 * 100, by simp [belowHundred, hundreds],
        by omega, by omega⟩
    · obtain ⟨front, name, word, split, some, less⟩ :=
        exists_last_belowHundred short (Nat.pos_of_ne_zero round) (Nat.mod_lt n (by decide))
      rw [split, ← List.append_assoc]
      exact ⟨_, name, word, rfl, some, Nat.le_trans less (Nat.mod_le n 100)⟩

/-- The last word of a number of thousands is worth less than it, or it is `mil`. -/
theorem exists_last_coefficient (large : 1000 ≤ n) :
    ∃ front name word, coefficient short n = front ++ [.number name word] ∧
      0 < word ∧ word ≤ 1000 ∧ (word = 1000 ∨ word < n) := by
  rw [coefficient]
  by_cases round : n % 1000 = 0
  · have count : n / 1000 ≠ 0 := by omega
    have none : belowThousand short 0 = [] := by cases short <;> rfl
    rw [round, none, List.append_nil, thousands, if_neg count]
    exact ⟨_, "mil", 1000, rfl, by decide, by decide, .inl rfl⟩
  · obtain ⟨front, name, word, split, positive, less⟩ :=
      exists_last_belowThousand short (Nat.pos_of_ne_zero round) (Nat.mod_lt n (by decide))
    rw [split, ← List.append_assoc]
    exact ⟨_, name, word, rfl, positive, by omega, by omega⟩

theorem read_thousands {count : Nat} (positive : 0 < count) (small : count < 1000) :
    read .word64 .beforeUnit initial (tokens (thousands count)) =
      .joined ⟨count * 1000, 0, 0, 1000, true⟩ := by
  have holds := Capacity.holdsBelow_word64
  have fits : count * 10 ^ 3 < UInt64.size :=
    Nat.lt_trans (Nat.mul_lt_mul_of_pos_right small (by decide)) (by decide)
  rw [thousands, if_neg (by omega)]
  split
  · next one =>
    subst one
    have once : read .word64 .beforeUnit initial [.number (10 ^ 3)] =
        .joined ⟨initial.total + 10 ^ 3, 0, 0, 10 ^ 3, true⟩ :=
      read_scale_once holds (by decide) rfl (.inl rfl) (by decide)
    exact once
  · have fresh : initial.current = 0 ∧ initial.mask = 0 := ⟨rfl, rfl⟩
    obtain ⟨middle, step, added⟩ := exists_read_belowThousand true holds small fresh (by omega)
    have total : initial.total + count * 10 ^ 3 = count * 10 ^ 3 := Nat.zero_add _
    have below : initial.total + count * 10 ^ 3 < UInt64.size := by rwa [total]
    have reads := read_scaled holds (by decide) positive rfl (.inl rfl)
      (plain_of_mem_getLast?_belowThousand true count) step added below
    rw [total] at reads
    rw [tokens, List.map_append]
    exact reads

/-- A number of thousands is read with its last scale word being `mil`. -/
theorem exists_read_coefficient (large : 1000 ≤ n) (small : n < 10 ^ 6) :
    ∃ final, read .word64 .beforeUnit initial (tokens (coefficient short n)) = .joined final ∧
      final.scale = 1000 ∧ final.total + final.current = n := by
  have room : 10 ^ 6 < UInt64.size := by decide
  have front := read_thousands (show 0 < n / 1000 by omega) (by omega)
  have below : n % 1000 < 1000 := Nat.mod_lt n (by decide)
  have fresh : (⟨n / 1000 * 1000, 0, 0, 1000, true⟩ : Western).current = 0 ∧
      (⟨n / 1000 * 1000, 0, 0, 1000, true⟩ : Western).mask = 0 := ⟨rfl, rfl⟩
  obtain ⟨final, step, added⟩ :=
    exists_read_belowThousand short Capacity.holdsBelow_word64 below fresh (by omega)
  refine ⟨final, ?_, added.scale, ?_⟩
  · have plain : ∀ token ∈ (tokens (thousands (n / 1000))).getLast?,
        token.isConnector = false := by
      rw [thousands, if_neg (by omega), tokens, List.map_append]
      exact plain_of_mem_getLast? _ _
    rw [coefficient, tokens, List.map_append, read_append plain front]
    exact step
  · rw [added.total, added.current]
    simp only
    omega

theorem kind_of_mem_names {words : List Entry} (listed : words ⊆ names) :
    ∀ token ∈ tokens words, token.kind ≠ .explicit := by
  have checked : names.all (fun entry => decide (entry.token.kind ≠ .explicit)) = true := by
    decide +kernel
  intro token member
  obtain ⟨entry, inside, rfl⟩ := List.mem_map.1 member
  simpa using List.all_eq_true.1 checked entry (listed inside)

/-- The words of a number and a million. -/
theorem resolve_million (positive : 0 < n) (small : n < 10 ^ 6) (order : ReadingOrder) :
    (n < 1000 → (grammar .word64 .beforeUnit).resolve order
        (tokens (coefficient short n ++ [million n])) = some (Nat.toDigits 10 (n * 10 ^ 6))) ∧
      (1000 ≤ n → ∃ last ∈ (coefficient short n).getLast?,
        (grammar .word64 .beforeUnit).resolve order (tokens (coefficient short n ++ [million n])) =
          some (if isMultiplier last.token then
              Nat.toDigits 10 n ++ Nat.toDigits 10 (10 ^ 6)
            else Nat.toDigits 10 (n - last.token.value) ++
              Nat.toDigits 10 (last.token.value * 10 ^ 6))) := by
  have holds := Capacity.holdsBelow_word64
  have fits {count : Nat} (most : count ≤ 1000) : count * 10 ^ 6 < UInt64.size :=
    Nat.lt_of_le_of_lt (Nat.mul_le_mul_right _ most) (by decide)
  have listed := coefficient_subset short small
  have spoken := kind_of_mem_names listed
  constructor
  · intro single
    have whole := fits (Nat.le_of_lt single)
    have fresh : initial.current = 0 ∧ initial.mask = 0 := ⟨rfl, rfl⟩
    obtain ⟨middle, step, added⟩ := exists_read_belowThousand short holds single fresh (by omega)
    have total : initial.total + n * 10 ^ 6 = n * 10 ^ 6 := Nat.zero_add _
    have below : initial.total + n * 10 ^ 6 < UInt64.size := by rwa [total]
    have reads := read_scaled holds (by decide) positive rfl (.inl rfl)
      (plain_of_mem_getLast?_belowThousand short n) step added below
    rw [← coefficient_of_lt short single] at reads
    have words : tokens (coefficient short n ++ [million n]) =
        tokens (coefficient short n) ++ [.number (10 ^ 6)] := List.map_append
    rw [words]
    refine resolve_of_read reads ((Nat.add_zero _).trans total) whole ?_ (by simp) order
    rw [List.forall_mem_append]
    exact ⟨spoken, by simp [Token.number]⟩
  · intro large
    obtain ⟨front, name, word, split, some, most, less⟩ := exists_last_coefficient short large
    obtain ⟨final, reads, scale, sum⟩ := exists_read_coefficient short large small
    have words : tokens (coefficient short n) = tokens front ++ [.number word] := by
      rw [split, tokens, List.map_append]
      rfl
    rw [words] at reads spoken
    refine ⟨.number name word, by rw [split, List.getLast?_concat]; rfl, ?_⟩
    have whole : tokens (coefficient short n ++ [million n]) =
        tokens front ++ [.number word, .number (10 ^ 6)] := by
      rw [tokens, List.map_append, ← tokens, words, List.append_assoc]
      rfl
    rw [whole]
    refine Western.resolve_of_refused reads sum (Nat.lt_trans small (by decide)) some ?_
      (by decide) (by omega) ?_ (fits most) spoken order
    · intro number
      refine less.resolve_left fun mil => ?_
      rw [mil] at number
      exact absurd number (by decide +kernel)
    · rw [scale]
      decide

/-- A number of thousands and a million in a text, with any gaps between the words. -/
theorem reads_million {text : List Char} (positive : 0 < n) (small : n < 10 ^ 6)
    (apart : ¬TensMeet (coefficient short n))
    (spelled : IsSpelling ((coefficient short n ++ [million n]).map Entry.word) text) :
    (n < 1000 →
        Scheme.spanish.reader.read? text = some (Nat.toDigits 10 (n * 10 ^ 6))) ∧
      (1000 ≤ n → ∃ last ∈ (coefficient short n).getLast?,
        Scheme.spanish.reader.read? text =
          some (if isMultiplier last.token then
              Nat.toDigits 10 n ++ Nat.toDigits 10 (10 ^ 6)
            else Nat.toDigits 10 (n - last.token.value) ++
              Nat.toDigits 10 (last.token.value * 10 ^ 6))) := by
  have listed : coefficient short n ++ [million n] ⊆ names :=
    List.append_subset.2 ⟨coefficient_subset short small,
      List.cons_subset.2 ⟨million_mem_names n, List.nil_subset _⟩⟩
  have split := tokenize_of_isSpelling listed (by simp) spelled
  have once : ¬Scheme.repeatsTen (tokens (coefficient short n ++ [million n])) = true := by
    rwa [repeatsTen_iff listed, tensMeet_concat_million]
  have read : Scheme.spanish.reader.read? text = (grammar .word64 .beforeUnit).resolve .rightToLeft
      (tokens (coefficient short n ++ [million n])) := by
    rw [show Scheme.spanish.reader.read? text = (Scheme.spanish.tokenize vocabulary text).bind
      (Scheme.spanish.evaluate .word64) from rfl, split, Option.bind_some]
    exact if_neg once
  rw [read]
  exact resolve_million short positive small .rightToLeft

end Spanish

section

variable {style : Style} {n count exponent : Nat} {words : List Word}

theorem digit_of_mem_places {place : Place} (member : place ∈ places count n) :
    place.digit = n / 10 ^ place.position % 10 := by
  induction count with
  | zero => simp at member
  | succ count ih =>
    rcases List.mem_append.1 member with here | lower
    · unfold place? at here
      split at here
      · simp at here
      · obtain rfl := List.mem_singleton.1 here
        rfl
    · exact ih lower

/-- A number below a power of ten has its digits below that position. -/
theorem position_lt_of_lt {place : Place} (small : n < 10 ^ exponent)
    (member : place ∈ places count n) : place.position < exponent := by
  by_contra high
  have power : 10 ^ exponent ≤ 10 ^ place.position :=
    Nat.pow_le_pow_right (by decide) (Nat.le_of_not_lt high)
  have digit := digit_of_mem_places member
  rw [Nat.div_eq_of_lt (Nat.lt_of_lt_of_le small power)] at digit
  exact absurd digit (Nat.ne_of_gt place.positive)

/-- A number with all its digits below a position is below that power of ten. -/
theorem lt_of_position_lt {lower : Nat} (small : n < 10 ^ count)
    (low : ∀ place ∈ places count n, place.position < lower) : n < 10 ^ lower := by
  induction count with
  | zero => exact Nat.lt_of_lt_of_le small (Nat.pow_le_pow_right (by decide) (Nat.zero_le _))
  | succ count ih =>
    by_cases inside : count < lower
    · exact Nat.lt_of_lt_of_le small (Nat.pow_le_pow_right (by decide) inside)
    · rw [places_succ] at low
      refine ih ?_ fun place member => low place (List.mem_append_right _ member)
      have digit : n / 10 ^ count < 10 :=
        Nat.div_lt_of_lt_mul (by rwa [Nat.pow_succ] at small)
      have zero : n / 10 ^ count % 10 = 0 := by
        by_contra nonzero
        have listed : (⟨n / 10 ^ count % 10, count, by omega, by omega⟩ : Place) ∈
            (place? count n).toList := by
          simp [place?, nonzero]
        exact inside (low _ (List.mem_append_left _ listed))
      rw [Nat.mod_eq_of_lt digit] at zero
      exact (Nat.div_eq_zero_iff_lt (Nat.pow_pos (by decide))).1 zero

namespace IsSaid

variable {places : List Place}

/-- A multiplier is said for a position in a block, or for the block. -/
theorem exists_place_of_multiplier (said : IsSaid style places words)
    (member : .multiplier exponent ∈ words) :
    ∃ place ∈ places, exponent = place.inner ∨ exponent = place.outer := by
  have each : ∀ word ∈ words, ∀ exponent, word = .multiplier exponent →
      ∃ place ∈ places, exponent = place.inner ∨ exponent = place.outer := by
    refine said.forall_mem fun place listed front digit next word member exponent same => ?_
    subst same
    refine ⟨place, listed, ?_⟩
    simp only [List.mem_append] at member
    rcases member with (counts | closes) | skips
    · cases digit <;> simp at counts <;> exact .inl counts
    · unfold Place.closing at closes
      split at closes
      · simp at closes
      · exact .inr (by simpa using closes)
    · unfold Place.gap at skips
      split at skips <;> simp at skips
  exact each _ member exponent rfl

/-- Without a large multiplier, all digits stand in the lowest block. -/
theorem outer_eq_zero (said : IsSaid style places words)
    (low : ∀ exponent, .multiplier exponent ∈ words → exponent < 4) :
    ∀ place ∈ places, place.outer = 0 := by
  induction said with
  | nil => simp
  | @cons place rest front back digit _ ih =>
    have others := ih fun exponent member => low exponent (List.mem_append_right _ member)
    refine List.forall_mem_cons.2 ⟨?_, others⟩
    by_cases closes : place.outer = 0 ∨ rest.head?.any (·.outer == place.outer) = true
    · rcases closes with lowest | same
      · exact lowest
      · obtain ⟨next, head, same⟩ := (Option.any_eq_true _ _).1 same
        rw [← eq_of_beq same]
        exact others next (List.mem_of_head? head)
    · have said : Word.multiplier place.outer ∈ place.closing rest.head? := by
        simp [Place.closing, closes]
      have small := low place.outer (by simp [said])
      rw [Place.outer] at small ⊢
      omega

end IsSaid

end

namespace Chinese

open Positional

variable {n : Nat} {words : List Word} {text : List Char}

/-- A number is said with a large multiplier if it has more than four digits. -/
theorem exists_read_scale (positive : 0 < n) (small : n < 10 ^ 8)
    (said : IsSaid style (places 16 n) words) :
    ∃ final, read .word64 .initial (words.map Word.token) = .joined final ∧
      final.total + final.block + final.pendingValue 0 = n ∧
      (n < 10 ^ 4 → final.lastLarge = 0 ∧ final.total = 0) ∧
      (10 ^ 4 ≤ n → final.lastLarge ≠ 0 ∧ final.lastLarge ≤ 10 ^ 8) := by
  have fits : n < 10 ^ 16 := Nat.lt_trans small (by decide)
  obtain ⟨-, -, final, -, reads, holds⟩ := exists_read_places positive fits said
  have usual := said.isUsual fun _ member => position_lt_of_mem_places member
  refine ⟨final, reads, holds.sum, fun single => ?_, fun several => ?_⟩
  · rcases lastLarge_of_read usual reads with ⟨exponent, large, listed, -⟩ | ⟨-, last, total⟩
    · obtain ⟨place, member, same⟩ := said.exists_place_of_multiplier listed
      have low := position_lt_of_lt single member
      rw [Place.inner, Place.outer] at same
      omega
    · exact ⟨last, total⟩
  · rcases lastLarge_of_read usual reads with ⟨exponent, large, listed, last⟩ | ⟨low, -, -⟩
    · obtain ⟨place, member, same⟩ := said.exists_place_of_multiplier listed
      have low := position_lt_of_lt small member
      rw [Place.inner, Place.outer] at same
      rw [last]
      exact ⟨Nat.ne_of_gt (Nat.pow_pos (by decide)),
        Nat.pow_le_pow_right (by decide) (by omega)⟩
    · have lowest := lt_of_position_lt fits fun place member => by
        have outer := said.outer_eq_zero low place member
        rw [Place.outer] at outer
        show place.position < 4
        omega
      omega

/-- A numeral and `亿` in a text. -/
theorem reads_hundred_million_after (positive : 0 < n) (small : n < 10 ^ 8)
    (numeral : IsNumeral style n words) (written : IsWritten words text) :
    (n < 10 ^ 4 →
        Scheme.chinese.reader.read? (text ++ ['亿']) = some (Nat.toDigits 10 (n * 10 ^ 8))) ∧
      (10 ^ 4 ≤ n → ∃ last ∈ words.getLast?,
        Scheme.chinese.reader.read? (text ++ ['亿']) =
          some (if Positional.isMultiplier last.token then
              Nat.toDigits 10 n ++ Nat.toDigits 10 (10 ^ 8)
            else Nat.toDigits 10 (n - last.value) ++
              Nat.toDigits 10 (last.value * 10 ^ 8))) := by
  cases numeral with
  | zero => exact absurd positive (Nat.lt_irrefl 0)
  | positive _ said =>
    have fits : n < 10 ^ 16 := Nat.lt_trans small (by decide)
    have usual := said.isUsual fun _ member => position_lt_of_mem_places member
    obtain ⟨place, rest, -, listed, -⟩ := exists_read_places positive fits said
    have first := listed ▸ said
    obtain ⟨final, reads, sum, single, several⟩ := exists_read_scale positive small said
    have links : Links false (words ++ [.multiplier 8]) :=
      links_append (links_of_isSaid said false) trivial
    rw [read?_of_isWritten (written.append (.cons (by decide) .nil)) links (by simp)]
    constructor
    · intro low
      obtain ⟨fresh, total⟩ := single low
      have base : final.base = n := by
        rw [Positional.base, if_neg (by omega)]
        omega
      have scaled : final.total + final.base * 10 ^ 8 = n * 10 ^ 8 := by
        rw [total, base, Nat.zero_add]
      have room : n * 10 ^ 8 < UInt64.size :=
        Nat.lt_trans (Nat.mul_lt_mul_of_pos_right small (by decide)) (by decide)
      have step := push_large Capacity.holdsBelow_word64 (show 4 ≤ 8 by decide) (.inl fresh)
        (by rwa [scaled])
      rw [scaled] at step
      have joined := (read_append_of_joined reads _).trans (read_cons_of_joined step [])
      have whole : words.map Word.token ++ [.number (10 ^ 8)] =
          (words ++ [Word.multiplier 8]).map Word.token := by
        rw [List.map_append]
        rfl
      rw [whole] at joined
      refine resolve_words joined ((Nat.add_zero _).trans (Nat.add_zero _)) room (by simp) ?_
        (by simp) _
      rw [List.head?_append, List.head?_eq_some_head first.ne_nil, Option.some_or,
        ← List.head?_eq_some_head first.ne_nil]
      exact first.head?_ne_zero
    · intro high
      obtain ⟨scaled, above⟩ := several high
      obtain ⟨front, last, rfl⟩ := (List.eq_nil_or_concat' words).resolve_left first.ne_nil
      refine ⟨last, List.getLast?_concat, ?_⟩
      rw [List.append_assoc]
      refine resolve_of_refused usual reads sum (Nat.lt_trans small (by decide))
        first.head?_ne_zero ?_ (by omega) (by decide) scaled above (by decide) _
      rintro rfl
      exact first.getLast?_ne_zero List.getLast?_concat

end Chinese

/-- A numeral that is one section is scaled by the scale word after it: up to 999 before a million
in Spanish, up to 9999 before 亿 in Chinese. A larger numeral has a scale word of its own, and the
one after it does not come below that. It starts a number of its own there, and takes the last
word along unless that is a multiplier. -/
theorem reads_numeral_before_scale :
    (∀ (short : Bool) (n : Nat) (text : List Char), 0 < n → n < 10 ^ 6 →
      ¬Spanish.TensMeet (Spanish.coefficient short n) →
      Spanish.IsSpelling ((Spanish.coefficient short n ++ [Spanish.million n]).map Entry.word) text →
      (n < 1000 →
          Scheme.spanish.reader.read? text = some (Nat.toDigits 10 (n * 10 ^ 6))) ∧
        (1000 ≤ n → ∃ last ∈ (Spanish.coefficient short n).getLast?,
          Scheme.spanish.reader.read? text =
            some (if Western.isMultiplier last.token then
                Nat.toDigits 10 n ++ Nat.toDigits 10 (10 ^ 6)
              else Nat.toDigits 10 (n - last.token.value) ++
                Nat.toDigits 10 (last.token.value * 10 ^ 6)))) ∧
      ∀ (n : Nat) (words : List Word) (text : List Char), 0 < n → n < 10 ^ 8 →
        IsNumeral Chinese.style n words → Chinese.IsWritten words text →
        (n < 10 ^ 4 →
            Scheme.chinese.reader.read? (text ++ ['亿']) = some (Nat.toDigits 10 (n * 10 ^ 8))) ∧
          (10 ^ 4 ≤ n → ∃ last ∈ words.getLast?,
            Scheme.chinese.reader.read? (text ++ ['亿']) =
              some (if Positional.isMultiplier last.token then
                  Nat.toDigits 10 n ++ Nat.toDigits 10 (10 ^ 8)
                else Nat.toDigits 10 (n - last.value) ++
                  Nat.toDigits 10 (last.value * 10 ^ 8))) :=
  ⟨fun short _ _ positive small apart spelled =>
      Spanish.reads_million short positive small apart spelled,
    fun _ _ _ positive small numeral written =>
      Chinese.reads_hundred_million_after positive small numeral written⟩

/-- The words of a Spanish number and a million, with single spaces between them. -/
theorem Spanish.isSpelling_million (short : Bool) {n : Nat} (small : n < 10 ^ 6) {text : List Char}
    (spaced : [' '].intercalate ((coefficient short n ++ [million n]).map Entry.word) = text) :
    IsSpelling ((coefficient short n ++ [million n]).map Entry.word) text := by
  rw [← spaced]
  exact isSpelling_intercalate (List.append_subset.2 ⟨coefficient_subset short small,
    List.cons_subset.2 ⟨million_mem_names n, List.nil_subset _⟩⟩) (by simp)

/-- One section, a last word that is scaled, and a last word that is a multiplier. -/
theorem reads_twenty_one_before_scale :
    Scheme.spanish.reader.read? "veintiún millones".toList = some "21000000".toList ∧
      Scheme.spanish.reader.read? "mil treinta y un millones".toList =
        some "10301000000".toList ∧
      Scheme.spanish.reader.read? "tres mil millones".toList = some "30001000000".toList ∧
      Scheme.chinese.reader.read? "十二亿".toList = some "1200000000".toList ∧
      Scheme.chinese.reader.read? "一万零五亿".toList = some "10000500000000".toList ∧
      Scheme.chinese.reader.read? "三万亿".toList = some "30000100000000".toList := by
  obtain ⟨spanish, chinese⟩ := reads_numeral_before_scale
  refine ⟨?_, ?_, ?_, ?_, ?_, ?_⟩
  · exact (spanish true 21 _ (by decide) (by decide) (by decide +kernel)
      (Spanish.isSpelling_million true (by decide) (by decide +kernel))).1 (by decide)
  · have spelled : Spanish.IsSpelling
        ((Spanish.coefficient true 1031 ++ [Spanish.million 1031]).map Entry.word)
        "mil treinta y un millones".toList :=
      Spanish.isSpelling_million true (by decide) (by decide +kernel)
    obtain ⟨last, ends, read⟩ :=
      (spanish true 1031 _ (by decide) (by decide) (by decide +kernel) spelled).2 (by decide)
    have known : (Spanish.coefficient true 1031).getLast? = some (.number "un" 1) := by
      decide +kernel
    cases known.symm.trans ends
    exact read.trans (by decide +kernel)
  · have spelled : Spanish.IsSpelling
        ((Spanish.coefficient true 3000 ++ [Spanish.million 3000]).map Entry.word)
        "tres mil millones".toList :=
      Spanish.isSpelling_million true (by decide) (by decide +kernel)
    obtain ⟨last, ends, read⟩ :=
      (spanish true 3000 _ (by decide) (by decide) (by decide +kernel) spelled).2 (by decide)
    have known : (Spanish.coefficient true 3000).getLast? = some (.number "mil" 1000) := by
      decide +kernel
    cases known.symm.trans ends
    exact read.trans (by decide +kernel)
  · have numeral : IsNumeral Chinese.style 12 [.multiplier 1, .digit 2] :=
      .positive (by decide) <| .cons (.bare (by decide) rfl rfl) <| .cons (.unit rfl) .nil
    exact (chinese 12 _ ['十', '二'] (by decide) (by decide) numeral
      (.cons (by decide) (.cons (by decide) .nil))).1 (by decide)
  · have numeral : IsNumeral Chinese.style 10005 [.digit 1, .multiplier 4, .zero, .digit 5] :=
      .positive (by decide) <| .cons (.unit rfl) <| .cons (.unit rfl) .nil
    obtain ⟨last, ends, read⟩ := (chinese 10005 _ ['一', '万', '零', '五'] (by decide) (by decide)
      numeral (.cons (by decide) <| .cons (by decide) <| .cons (by decide) <|
        .cons (by decide) .nil)).2 (by decide)
    cases ends
    exact read.trans (by decide +kernel)
  · have numeral : IsNumeral Chinese.style 30000 [.digit 3, .multiplier 4] :=
      .positive (by decide) <| .cons (.unit rfl) .nil
    obtain ⟨last, ends, read⟩ := (chinese 30000 _ ['三', '万'] (by decide) (by decide) numeral
      (.cons (by decide) <| .cons (by decide) .nil)).2 (by decide)
    cases ends
    exact read.trans (by decide +kernel)

/-- Two thousand millions are 2000 and a million, and ten thousand 亿 are 10000 and 10^8. -/
theorem two_thousand_million_apart :
    Spanish.IsSpelling ((Spanish.numeral 2000 ++ [Spanish.million 2000]).map Entry.word)
        "dos mil millones".toList ∧
      ¬Spanish.TensMeet (Spanish.numeral 2000) ∧
      Scheme.spanish.reader.read? "dos mil millones".toList = some "20001000000".toList ∧
      "20001000000".toList ≠ Nat.toDigits 10 (2000 * 10 ^ 6) ∧
      IsNumeral Chinese.style 10000 [.digit 1, .multiplier 4] ∧
      Chinese.IsWritten [.digit 1, .multiplier 4] ['一', '万'] ∧
      Scheme.chinese.reader.read? (['一', '万'] ++ ['亿']) = some "10000100000000".toList ∧
      "10000100000000".toList ≠ Nat.toDigits 10 (10000 * 10 ^ 8) := by
  have spelled : Spanish.IsSpelling
      ((Spanish.coefficient false 2000 ++ [Spanish.million 2000]).map Entry.word)
      "dos mil millones".toList :=
    Spanish.isSpelling_million false (by decide) (by decide +kernel)
  have apart : ¬Spanish.TensMeet (Spanish.coefficient false 2000) := by decide +kernel
  have numeral : IsNumeral Chinese.style 10000 [.digit 1, .multiplier 4] :=
    .positive (by decide) (.cons (.unit rfl) .nil)
  have written : Chinese.IsWritten [.digit 1, .multiplier 4] ['一', '万'] :=
    .cons (by decide) (.cons (by decide) .nil)
  obtain ⟨mil, last, spanish⟩ :=
    (Spanish.reads_million false (by decide) (by decide) apart spelled).2 (by decide)
  obtain ⟨block, ends, chinese⟩ :=
    (Chinese.reads_hundred_million_after (by decide) (by decide) numeral written).2 (by decide)
  have known : (Spanish.coefficient false 2000).getLast? = some (.number "mil" 1000) := by
    decide +kernel
  cases known.symm.trans last
  cases ends
  rw [← Spanish.coefficient_eq_numeral (by decide) (by decide)]
  exact ⟨spelled, apart, spanish.trans (by decide +kernel), by decide +kernel, numeral, written,
    chinese.trans (by decide +kernel), by decide +kernel⟩

end Phrasebook.Numeral
