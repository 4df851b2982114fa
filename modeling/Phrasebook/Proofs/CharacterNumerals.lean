import Phrasebook.Proofs.PositionalReading

/-! Numerals written in number characters.

Each digit that is not zero stands before the multiplier of its position in its
block of four, and each block before its own large multiplier. Languages differ in
two things: before which multipliers a one may be left out, and whether a zero
marks the positions that are passed over. Read word by word, any such numeral is
one number, the one that it was made from.
-/

set_option autoImplicit false

namespace Phrasebook.Numeral

/-- A digit that is not zero, and the position where it stands. -/
structure Place where
  digit : Nat
  position : Nat
  positive : 0 < digit
  small : digit < 10

namespace Place

def value (place : Place) : Nat := place.digit * 10 ^ place.position

/-- The position within its block of four. -/
def inner (place : Place) : Nat := place.position % 4

/-- The exponent of the large multiplier of its block. -/
def outer (place : Place) : Nat := 4 * (place.position / 4)

theorem position_eq (place : Place) : place.position = place.inner + place.outer :=
  (Nat.mod_add_div place.position 4).symm

theorem value_eq (place : Place) :
    place.value = place.digit * 10 ^ place.inner * 10 ^ place.outer := by
  rw [value, Nat.mul_assoc, ← Nat.pow_add, ← position_eq]

end Place

/-- The place of the digit at a position, unless the digit is zero. -/
def place? (position n : Nat) : Option Place :=
  if nonzero : n / 10 ^ position % 10 = 0 then none
  else some ⟨n / 10 ^ position % 10, position, by omega, by omega⟩

/-- The places of the nonzero digits below a position, from the highest down. -/
def places : Nat → Nat → List Place
  | 0, _ => []
  | position + 1, n => (place? position n).toList ++ places position n

@[simp] theorem places_zero (n : Nat) : places 0 n = [] := rfl

theorem places_succ (position n : Nat) :
    places (position + 1) n = (place? position n).toList ++ places position n := rfl

theorem position_of_mem_place? {position n : Nat} {place : Place}
    (found : place ∈ place? position n) : place.position = position := by
  unfold place? at found
  split at found
  · simp at found
  · rw [← Option.some.inj found]

theorem sum_place? (position n : Nat) : ((place? position n).toList.map Place.value).sum =
    n / 10 ^ position % 10 * 10 ^ position := by
  unfold place?
  split
  · next zero => simp [zero]
  · simp [Place.value]

theorem position_lt_of_mem_places {count n : Nat} {place : Place}
    (member : place ∈ places count n) : place.position < count := by
  induction count with
  | zero => simp at member
  | succ count ih =>
    rcases List.mem_append.1 member with here | lower
    · rw [position_of_mem_place? (Option.mem_toList.1 here)]
      exact Nat.lt_succ_self count
    · exact Nat.lt_succ_of_lt (ih lower)

theorem pairwise_places (count n : Nat) :
    (places count n).Pairwise fun first second => second.position < first.position := by
  induction count with
  | zero => exact .nil
  | succ count ih =>
    rw [places_succ]
    cases found : place? count n with
    | none => exact ih
    | some place =>
      rw [Option.toList_some, List.singleton_append, List.pairwise_cons,
        position_of_mem_place? found]
      exact ⟨fun _ member => position_lt_of_mem_places member, ih⟩

/-- The places make up the number. -/
theorem sum_places (count n : Nat) : ((places count n).map Place.value).sum = n % 10 ^ count := by
  induction count with
  | zero => simp [Nat.mod_one]
  | succ count ih =>
    rw [places_succ, List.map_append, List.sum_append, sum_place?, ih, Nat.mod_pow_succ,
      Nat.mul_comm, Nat.add_comm]

/-- A word of a numeral. -/
inductive Word where
  | digit (value : Nat)
  /-- Ten to the power of `exponent`. -/
  | multiplier (exponent : Nat)
  /-- A zero for the positions that are passed over. -/
  | zero
  deriving Repr, DecidableEq

def Word.token : Word → Token
  | digit value => .number value
  | multiplier exponent => .number (10 ^ exponent)
  | zero => .connector

def Word.value : Word → Nat
  | digit value => value
  | multiplier exponent => 10 ^ exponent
  | zero => 0

theorem Word.token_eq {word : Word} (spoken : word ≠ .zero) : word.token = .number word.value := by
  cases word with
  | zero => exact absurd rfl spoken
  | digit | multiplier => rfl

/-- How the numerals of a language are put together. -/
structure Style where
  /-- Before which multipliers within a block a one may be left out. -/
  omitsOne : Nat → Bool
  /-- Whether a zero marks positions that are passed over. -/
  marksGaps : Bool

namespace Place

/-- A digit is said before the multiplier of its position in the block. -/
inductive IsSaid (style : Style) (place : Place) : List Word → Prop where
  | unit : place.inner = 0 → IsSaid style place [.digit place.digit]
  | full : place.inner ≠ 0 → IsSaid style place [.digit place.digit, .multiplier place.inner]
  | bare : place.inner ≠ 0 → place.digit = 1 → style.omitsOne place.inner = true →
      IsSaid style place [.multiplier place.inner]

/-- The large multiplier after the last digit of a block. -/
def closing (place : Place) (next : Option Place) : List Word :=
  if place.outer = 0 ∨ next.any (·.outer == place.outer) then [] else [.multiplier place.outer]

/-- Whether positions are passed over between a place and the next one. -/
def skips (place : Place) (next : Option Place) : Bool :=
  next.any fun next => decide (next.position + 1 < place.position)

def gap (style : Style) (place : Place) (next : Option Place) : List Word :=
  if style.marksGaps && place.skips next then [.zero] else []

end Place

/-- The words for some digits, from the highest down. -/
inductive IsSaid (style : Style) : List Place → List Word → Prop where
  | nil : IsSaid style [] []
  | cons {place : Place} {rest : List Place} {front back : List Word} :
      place.IsSaid style front → IsSaid style rest back →
      IsSaid style (place :: rest)
        (front ++ place.closing rest.head? ++ place.gap style rest.head? ++ back)

/-- The numerals of a number of at most sixteen digits. -/
inductive IsNumeral (style : Style) : Nat → List Word → Prop where
  | zero : IsNumeral style 0 [.zero]
  | positive {n : Nat} {words : List Word} : 0 < n → IsSaid style (places 16 n) words →
      IsNumeral style n words

namespace Positional

variable {capacity : Capacity} {bound : Nat} {style : Style} {state : Positional} {place : Place}

/-- The state before the next digit: nothing waits, the position is free and the
block is below the last large multiplier. -/
structure Ready (state : Positional) (place : Place) : Prop where
  vacant : state.pending = none
  free : FreeTo state.blockMask place.inner
  below : place.outer = 0 ∨ state.lastLarge = 0 ∨ 10 ^ place.outer < state.lastLarge

/-- What has been read before a digit, whose block is still open. -/
def reached (state : Positional) (place : Place) : Nat :=
  state.total + state.block * 10 ^ place.outer

/-- The state after a digit and its multiplier within the block. -/
def take (state : Positional) (place : Place) : Positional :=
  if place.inner = 0 then state.wait (.number place.digit)
  else
    { state with
      block := state.block + place.digit * 10 ^ place.inner
      blockMask := state.blockMask ||| 2 ^ place.inner
      pending := none
      lastMultiplier := 10 ^ place.inner
      afterMultiplier := true }

/-- The state after a digit that ends its block, and the large multiplier. -/
def close (state : Positional) (place : Place) : Positional where
  total := state.total + (state.block + place.digit * 10 ^ place.inner) * 10 ^ place.outer
  block := 0
  blockMask := 0
  pending := none
  lastMultiplier := 10 ^ place.outer
  lastLarge := 10 ^ place.outer
  afterMultiplier := true

theorem total_take : (state.take place).total = state.total := by
  unfold take
  split <;> rfl

theorem lastLarge_take : (state.take place).lastLarge = state.lastLarge := by
  unfold take
  split <;> rfl

theorem sum_take :
    (state.take place).block + (state.take place).pendingValue 0 =
      state.block + place.digit * 10 ^ place.inner := by
  unfold take
  split
  · next unit => simp [wait, pendingValue, Token.number, unit]
  · simp [pendingValue]

theorem total_close : (state.close place).total = state.reached place + place.value := by
  rw [close, reached, place.value_eq, Nat.add_mul, Nat.add_assoc]

/-- A block has no more than the number it is part of. -/
theorem block_le_reached (state : Positional) (place : Place) :
    state.block + place.digit * 10 ^ place.inner ≤ state.reached place + place.value := by
  have scaled : (state.block + place.digit * 10 ^ place.inner) * 1 ≤
      (state.block + place.digit * 10 ^ place.inner) * 10 ^ place.outer :=
    Nat.mul_le_mul_left _ (Nat.pow_pos (by decide))
  rw [← total_close, close]
  simp only
  omega

/-- A digit is read with its multiplier, and a one is counted where it is left out. -/
theorem read_place {words : List Word} (room : capacity.HoldsBelow bound)
    (ready : state.Ready place) (said : place.IsSaid style words)
    (fits : state.reached place + place.value < bound) :
    read capacity state (words.map Word.token) = .joined (state.take place) := by
  have small : place.inner < 4 := Nat.mod_lt _ (by decide)
  have least := block_le_reached state place
  have digit : push capacity state (.number place.digit) =
      .joined (state.wait (.number place.digit)) :=
    push_digit place.positive place.small ready.vacant (ready.free.of_le (Nat.zero_le _))
  cases said with
  | unit first =>
    rw [List.map_singleton, Word.token, read_cons_of_joined digit, read, take,
      if_pos first]
  | full upper =>
    have waiting : (state.wait (.number place.digit)).pendingValue 1 = place.digit := rfl
    have step := push_small (state.wait (.number place.digit)) room (Nat.pos_of_ne_zero upper)
      small ready.free (by
        rw [waiting]
        exact Nat.lt_of_le_of_lt least fits)
    rw [List.map_cons, List.map_singleton, Word.token, Word.token,
      read_cons_of_joined digit, read_cons_of_joined step, read, take, if_neg upper,
      waiting]
    rfl
  | bare upper one omits =>
    -- Nothing waits, so that the multiplier counts once.
    have alone : state.pendingValue 1 = place.digit := by
      rw [pendingValue, ready.vacant, one]
      rfl
    have step := push_small state room (Nat.pos_of_ne_zero upper) small ready.free (by
      rw [alone]
      exact Nat.lt_of_le_of_lt least fits)
    rw [List.map_singleton, Word.token, read_cons_of_joined step, read, take, if_neg upper, alone]

/-- After the last digit of a block, the large multiplier closes the block. -/
theorem push_closing (room : capacity.HoldsBelow bound) (ready : state.Ready place)
    (large : place.outer ≠ 0) (fits : state.reached place + place.value < bound) :
    push capacity (state.take place) (.number (10 ^ place.outer)) =
      .joined (state.close place) := by
  have positive : 0 < place.digit * 10 ^ place.inner :=
    Nat.mul_pos place.positive (Nat.pow_pos (by decide))
  have counted : (state.take place).base = state.block + place.digit * 10 ^ place.inner := by
    rw [base, sum_take, if_neg (by omega)]
  have least : 4 ≤ place.outer := by
    rw [Place.outer] at large ⊢
    omega
  have below := ready.below.resolve_left large
  have sum : state.total + (state.block + place.digit * 10 ^ place.inner) * 10 ^ place.outer =
      state.reached place + place.value := total_close
  rw [push_large room least (by rw [lastLarge_take]; exact below)
    (by rw [total_take, counted]; omega), total_take, counted]
  rfl

/-- The state after a digit with all its multipliers, given the place that comes next. -/
def advance (state : Positional) (place : Place) (next : Option Place) : Positional :=
  if place.outer = 0 ∨ next.any (·.outer == place.outer) then state.take place
  else state.close place

theorem read_advance {front : List Word} (next : Option Place) (room : capacity.HoldsBelow bound)
    (ready : state.Ready place) (said : place.IsSaid style front)
    (fits : state.reached place + place.value < bound) :
    read capacity state ((front ++ place.closing next).map Word.token) =
      .joined (state.advance place next) := by
  rw [List.map_append, read_append_of_joined (read_place room ready said fits), Place.closing,
    advance]
  split
  · rfl
  · next closes =>
    rw [List.map_singleton, Word.token,
      read_cons_of_joined (push_closing room ready (fun zero => closes (.inl zero)) fits), read]

variable {next : Place}

/-- The next digit stands lower in the same block, or in a block below. -/
theorem lower_cases (lower : next.position < place.position) :
    (next.outer = place.outer ∧ next.inner < place.inner) ∨ next.outer < place.outer := by
  have high := place.position_eq
  have low := next.position_eq
  have apart : next.outer ≤ place.outer :=
    Nat.mul_le_mul_left 4 (Nat.div_le_div_right (Nat.le_of_lt lower))
  omega

theorem advance_of_same (same : next.outer = place.outer) (inner : next.inner < place.inner) :
    state.advance place (some next) =
      { state with
        block := state.block + place.digit * 10 ^ place.inner
        blockMask := state.blockMask ||| 2 ^ place.inner
        pending := none
        lastMultiplier := 10 ^ place.inner
        afterMultiplier := true } := by
  rw [advance, if_pos (.inr (by simp [same])), take, if_neg (by omega)]

theorem advance_of_less (less : next.outer < place.outer) :
    state.advance place (some next) = state.close place := by
  have differs : ¬(place.outer = 0 ∨ (some next).any (·.outer == place.outer) = true) := by
    simp only [Option.any_some, beq_iff_eq]
    omega
  rw [advance, if_neg differs]

theorem ready_advance (ready : state.Ready place) (lower : next.position < place.position) :
    (state.advance place (some next)).Ready next := by
  -- In the same block the position just taken is higher; a new block starts out empty.
  rcases lower_cases lower with ⟨same, inner⟩ | less
  · rw [advance_of_same same inner]
    refine ⟨rfl, (ready.free.of_le (by omega)).or (freeTo_two_pow inner), ?_⟩
    rw [same]
    exact ready.below
  · rw [advance_of_less less]
    exact ⟨rfl, freeTo_zero _, .inr (.inr (Nat.pow_lt_pow_right (by decide) less))⟩

theorem started_advance (lower : next.position < place.position) :
    (state.advance place (some next)).started = true := by
  rcases lower_cases lower with ⟨same, inner⟩ | less
  · rw [advance_of_same same inner]
    simp [started]
  · rw [advance_of_less less]
    simp [started, close]

theorem reached_advance (state : Positional) (lower : next.position < place.position) :
    (state.advance place (some next)).reached next = state.reached place + place.value := by
  rcases lower_cases lower with ⟨same, inner⟩ | less
  · rw [advance_of_same same inner, ← total_close, reached, close, same]
  · rw [advance_of_less less, reached, total_close, close, Nat.zero_mul, Nat.add_zero]

/-- Only the tens are next to the units. -/
theorem lastMultiplier_advance (adjoins : next.position + 1 = place.position)
    (unit : next.position = 0) : (state.advance place (some next)).lastMultiplier = 10 := by
  have tens : place.position = 1 := by omega
  have inner : place.inner = 1 := by rw [Place.inner, tens]
  have outer : place.outer = 0 := by rw [Place.outer, tens]
  rw [advance, if_pos (.inl outer), take, if_neg (by omega), inner]
  rfl

/-- Where gaps are marked, a last unit that comes right after a multiplier comes after
ten, so that it is no abbreviation. -/
def Exact (style : Style) (state : Positional) (place : Place) : Prop :=
  style.marksGaps = true → place.position = 0 → state.afterMultiplier = true →
    state.lastMultiplier = 10

/-- A zero that marks a gap changes nothing but the time right after a multiplier. -/
theorem exists_read_gap (capacity : Capacity) (style : Style) (ready : state.Ready place)
    (lower : next.position < place.position) :
    ∃ after, read capacity (state.advance place (some next))
        ((place.gap style (some next)).map Word.token) = .joined after ∧
      after.Ready next ∧ after.Exact style next ∧
      after.reached next = state.reached place + place.value := by
  have onward := ready_advance ready lower
  have sum := reached_advance state lower
  unfold Place.gap
  split
  · refine ⟨{ state.advance place (some next) with afterMultiplier := false }, ?_,
      ⟨onward.vacant, onward.free, onward.below⟩, ?_, sum⟩
    · rw [List.map_singleton, Word.token,
        read_cons_of_joined (push_connector (started_advance lower)), read]
    · intro _ _ fresh
      simp at fresh
  · next unmarked =>
    refine ⟨_, rfl, onward, ?_, sum⟩
    intro marks unit _
    refine lastMultiplier_advance ?_ unit
    simp only [marks, Place.skips, Option.any_some, Bool.true_and, decide_eq_true_eq] at unmarked
    omega

/-- What a finished number is worth, with nothing abbreviated. -/
structure Holds (style : Style) (state : Positional) (value : Nat) : Prop where
  sum : state.total + state.block + state.pendingValue 0 = value
  tail : state.tail style.marksGaps = state.pendingValue 0

theorem holds_advance (exact : state.Exact style place) :
    (state.advance place none).Holds style (state.reached place + place.value) := by
  unfold advance
  split
  · next lowest =>
    have outer : place.outer = 0 := lowest.resolve_right (by simp)
    constructor
    · rw [Nat.add_assoc, sum_take, total_take, reached, place.value_eq, outer]
      omega
    · apply tail_eq_pendingValue
      intro pending waits marks fresh
      unfold take at waits ⊢
      split at waits
      · next unit =>
        rw [if_pos unit]
        cases waits
        exact exact marks (by rw [place.position_eq, unit, outer]) fresh
      · simp at waits
  · exact ⟨by rw [total_close]; rfl, rfl⟩

/-- A numeral is read as the number that its places make up. -/
theorem exists_read_of_isSaid {rest : List Place} {words : List Word}
    (room : capacity.HoldsBelow bound) (said : IsSaid style (place :: rest) words)
    (descends : (place :: rest).Pairwise fun first second => second.position < first.position)
    (ready : state.Ready place) (exact : state.Exact style place)
    (fits : state.reached place + ((place :: rest).map Place.value).sum < bound) :
    ∃ after, read capacity state (words.map Word.token) = .joined after ∧
      after.Holds style (state.reached place + ((place :: rest).map Place.value).sum) := by
  -- The sum of what has been read and what is to come stays the same.
  induction rest generalizing place words state with
  | nil =>
    cases said with
    | cons front back =>
      cases back
      rw [List.map_singleton, List.sum_singleton] at fits ⊢
      have read := read_advance none room ready front fits
      exact ⟨_, by simpa [Place.gap, Place.skips] using read, holds_advance exact⟩
  | cons next rest ih =>
    cases said with
    | cons front back =>
      have lower := List.rel_of_pairwise_cons descends (List.mem_cons_self ..)
      rw [List.map_cons, List.sum_cons, ← Nat.add_assoc] at fits ⊢
      have read := read_advance (some next) room ready front (by omega)
      obtain ⟨middle, gap, ready, exact, sum⟩ :=
        exists_read_gap capacity style ready lower
      rw [← sum] at fits ⊢
      obtain ⟨after, further, holds⟩ := ih back descends.of_cons ready exact fits
      refine ⟨after, ?_, holds⟩
      rw [List.head?_cons, List.map_append, List.map_append,
        List.append_assoc, read_append_of_joined read, read_append_of_joined gap, further]

end Positional

variable {style : Style} {n : Nat} {words : List Word}

theorem Place.ne_zero_of_isSaid {place : Place} {front : List Word}
    (said : place.IsSaid style front) (next : Option Place) :
    ∀ word ∈ front ++ place.closing next, word ≠ .zero := by
  intro word member
  rcases List.mem_append.1 member with digit | large
  · cases said <;> simp at digit <;> rcases digit with rfl | rfl <;> simp
  · unfold Place.closing at large
    split at large
    · simp at large
    · rw [List.mem_singleton.1 large]
      simp

theorem Place.ne_nil_of_isSaid {place : Place} {front : List Word}
    (said : place.IsSaid style front) : front ≠ [] := by
  cases said <;> simp

namespace IsSaid

variable {place : Place} {rest : List Place}

/-- What holds of the words for each place, and of the words up to the next place, holds
of all words. -/
theorem forall_mem {good : Word → Prop} {places : List Place} (said : IsSaid style places words)
    (each : ∀ place ∈ places, ∀ front, place.IsSaid style front → ∀ next,
      ∀ word ∈ front ++ place.closing next ++ place.gap style next, good word) :
    ∀ word ∈ words, good word := by
  induction said with
  | nil => simp
  | cons digit _ ih =>
    intro word member
    rcases List.mem_append.1 member with front | back
    · exact each _ (List.mem_cons_self ..) _ digit _ word front
    · exact ih (fun place listed => each place (List.mem_cons_of_mem _ listed)) word back

/-- Where gaps are not marked, no zero is said. -/
theorem ne_zero {places : List Place} (said : IsSaid style places words)
    (unmarked : style.marksGaps = false) : ∀ word ∈ words, word ≠ .zero := by
  refine said.forall_mem fun place _ front digit next word member => ?_
  have none : place.gap style next = [] := by
    rw [Place.gap, unmarked]
    rfl
  rw [none, List.append_nil] at member
  exact Place.ne_zero_of_isSaid digit next word member

theorem ne_nil (said : IsSaid style (place :: rest) words) : words ≠ [] := by
  cases said with
  | cons front back => simp [Place.ne_nil_of_isSaid front]

/-- A numeral does not begin with the zero that marks a gap. -/
theorem head?_ne_zero (said : IsSaid style (place :: rest) words) : words.head? ≠ some .zero := by
  cases said with
  | @cons _ _ front _ digit back =>
    obtain ⟨first, others, rfl⟩ := List.exists_cons_of_ne_nil (Place.ne_nil_of_isSaid digit)
    have plain := Place.ne_zero_of_isSaid digit none first (by simp)
    simpa using plain

theorem getLast?_ne_zero (said : IsSaid style (place :: rest) words) :
    words.getLast? ≠ some .zero := by
  induction rest generalizing place words with
  | nil =>
    cases said with
    | @cons _ _ front _ digit back =>
      cases back
      rw [List.append_nil, show place.gap style ([] : List Place).head? = [] by
        simp [Place.gap, Place.skips], List.append_nil]
      intro last
      exact Place.ne_zero_of_isSaid digit _ _ (List.mem_of_getLast? last) rfl
  | cons next rest ih =>
    cases said with
    | cons _ back =>
      have later := ih back
      rw [List.getLast?_eq_some_getLast back.ne_nil] at later
      rw [List.getLast?_append, List.getLast?_eq_some_getLast back.ne_nil, Option.some_or]
      exact later

end IsSaid

/-- The digits from one to nine, the multipliers of the positions below 10^16, and zero. -/
def Word.isUsual : Word → Bool
  | digit value => decide (0 < value ∧ value < 10)
  | multiplier exponent => [1, 2, 3, 4, 8, 12].contains exponent
  | zero => true

theorem Place.isUsual_inner {place : Place} (low : place.position < 16) (inside : place.inner ≠ 0) :
    (Word.multiplier place.inner).isUsual = true := by
  have within : ∀ position < 16, position % 4 ≠ 0 →
      (Word.multiplier (position % 4)).isUsual = true := by decide
  exact within place.position low inside

theorem Place.isUsual_outer {place : Place} (low : place.position < 16) (above : place.outer ≠ 0) :
    (Word.multiplier place.outer).isUsual = true := by
  have within : ∀ position < 16, 4 * (position / 4) ≠ 0 →
      (Word.multiplier (4 * (position / 4))).isUsual = true := by decide
  exact within place.position low above

theorem Place.isUsual_of_isSaid {place : Place} {front : List Word}
    (said : place.IsSaid style front) (low : place.position < 16) :
    ∀ word ∈ front, word.isUsual = true := by
  have usual : (Word.digit place.digit).isUsual = true :=
    decide_eq_true ⟨place.positive, place.small⟩
  cases said with
  | unit => simpa using usual
  | full inside => simpa using ⟨usual, Place.isUsual_inner low inside⟩
  | bare inside => simpa using Place.isUsual_inner low inside

theorem IsSaid.isUsual {places : List Place} (said : IsSaid style places words)
    (low : ∀ place ∈ places, place.position < 16) : ∀ word ∈ words, word.isUsual = true := by
  refine said.forall_mem fun place listed front digit next word member => ?_
  simp only [List.mem_append] at member
  rcases member with (counts | closes) | skips
  · exact Place.isUsual_of_isSaid digit (low place listed) word counts
  · unfold Place.closing at closes
    split at closes
    · simp at closes
    · next upper =>
      rw [List.mem_singleton.1 closes]
      exact Place.isUsual_outer (low place listed) fun nothing => upper (.inl nothing)
  · unfold Place.gap at skips
    split at skips
    · rw [List.mem_singleton.1 skips]
      rfl
    · simp at skips

theorem IsNumeral.isUsual (numeral : IsNumeral style n words) :
    ∀ word ∈ words, word.isUsual = true := by
  cases numeral with
  | zero => simp [Word.isUsual]
  | positive _ said => exact said.isUsual fun _ member => position_lt_of_mem_places member

theorem exists_isSaid (style : Style) (places : List Place) :
    ∃ words, IsSaid style places words := by
  induction places with
  | nil => exact ⟨[], .nil⟩
  | cons place rest ih =>
    obtain ⟨back, further⟩ := ih
    by_cases unit : place.inner = 0
    · exact ⟨_, .cons (.unit unit) further⟩
    · exact ⟨_, .cons (.full unit) further⟩

/-- Every number has a numeral. -/
theorem exists_isNumeral (style : Style) (n : Nat) : ∃ words, IsNumeral style n words := by
  cases n with
  | zero => exact ⟨_, .zero⟩
  | succ n =>
    obtain ⟨words, said⟩ := exists_isSaid style (places 16 (n + 1))
    exact ⟨words, .positive (Nat.succ_pos n) said⟩

/-- A numeral that is one number is written as its digits. -/
theorem resolve_words {after : Positional} {abbreviates : Bool}
    (joined : Positional.read .word64 .initial (words.map Word.token) = .joined after)
    (total : after.total + after.block + after.tail abbreviates = n) (small : n < UInt64.size)
    (nonempty : words ≠ []) (begins : words.head? ≠ some .zero)
    (ends : words.getLast? ≠ some .zero) (order : ReadingOrder) :
    (Positional.grammar .word64 abbreviates).resolve order (words.map Word.token) =
      some (Nat.toDigits 10 n) := by
  have plain : ∀ word : Word, word ≠ .zero → word.token.isConnector = false := by
    intro word kind
    cases word with
    | zero => exact absurd rfl kind
    | digit | multiplier => rfl
  have spoken : ∀ token ∈ words.map Word.token, token.kind ≠ .explicit := by
    intro token member
    obtain ⟨word, -, rfl⟩ := List.mem_map.1 member
    cases word <;> simp [Word.token, Token.number, Token.connector]
  rw [List.head?_eq_some_head nonempty] at begins
  rw [List.getLast?_eq_some_getLast nonempty] at ends
  refine Positional.resolve_of_read joined total small spoken (by simpa using nonempty) ?_ ?_ order
  · rw [List.head_map]
    exact plain _ fun zero => begins (by rw [zero])
  · rw [List.getLast_map]
    exact plain _ fun zero => ends (by rw [zero])

/-- A numeral of a number below 10^16 is read as it. -/
theorem exists_read_places (positive : 0 < n) (small : n < 10 ^ 16)
    (said : IsSaid style (places 16 n) words) :
    ∃ place rest after, places 16 n = place :: rest ∧
      Positional.read .word64 .initial (words.map Word.token) = .joined after ∧
      after.Holds style n := by
  have sum := sum_places 16 n
  rw [Nat.mod_eq_of_lt small] at sum
  have descends := pairwise_places 16 n
  cases listed : places 16 n with
  | nil =>
    rw [listed] at sum
    simp at sum
    omega
  | cons place rest =>
    rw [listed] at sum descends said
    have ready : Positional.initial.Ready place := ⟨rfl, Positional.freeTo_zero _, .inr (.inl rfl)⟩
    have exact : Positional.initial.Exact style place := by
      intro _ _ fresh
      simp [Positional.initial] at fresh
    have nothing : Positional.initial.reached place = 0 := by
      simp [Positional.reached, Positional.initial]
    obtain ⟨after, read, holds⟩ := Positional.exists_read_of_isSaid Capacity.holdsBelow_word64
      said descends ready exact (by
        rw [nothing, sum, Nat.zero_add]
        exact Nat.lt_trans small (by decide))
    rw [nothing, sum, Nat.zero_add] at holds
    exact ⟨place, rest, after, rfl, read, holds⟩

end Phrasebook.Numeral
