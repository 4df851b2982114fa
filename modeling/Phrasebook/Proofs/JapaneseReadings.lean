import Mathlib.Data.List.Chain
import Phrasebook.Proofs.JapaneseWords
import Phrasebook.Proofs.PositionalReading

/-! Japanese numbers as they are read aloud.

Some hundreds and thousands are said as one word, which waits like a unit. A word
below it takes its place, but a ten or a hundred that is said alone claims it: さんびゃく
じゅう is heard as 300 tens and not as 310. Where no such pair comes up, the reading of a
number is read as the number.
-/

set_option autoImplicit false

namespace Phrasebook.Numeral

namespace Japanese

/-- Hundreds and thousands that are said as one word with their digit. -/
def fused : List Nat := [300, 600, 800, 3000, 8000]

/-- The words for the digit at a position of a block. -/
def spoken (digit position : Nat) : List Nat :=
  if digit = 0 then []
  else if position = 0 ∨ digit * 10 ^ position ∈ fused then [digit * 10 ^ position]
  else if digit = 1 then [10 ^ position]
  else [digit, 10 ^ position]

/-- The words for a number below 10^4. -/
def belowTenThousand (n : Nat) : List Nat :=
  spoken (n / 1000) 3 ++ spoken (n / 100 % 10) 2 ++ spoken (n / 10 % 10) 1 ++ spoken (n % 10) 0

/-- The words for a number below 10^8. -/
def reading (n : Nat) : List Nat :=
  (if n / 10000 = 0 then [] else belowTenThousand (n / 10000) ++ [10000]) ++
    belowTenThousand (n % 10000)

/-- A fused word does not come right before a ten or a hundred that is said alone. -/
def Adjoins (first second : Nat) : Prop := first ∈ fused → second ≠ 10 ∧ second ≠ 100

instance (first second : Nat) : Decidable (Adjoins first second) :=
  inferInstanceAs (Decidable (_ → _))

theorem of_mem_fused : ∀ position < 4, ∀ digit < 10, digit * 10 ^ position ∈ fused →
    Positional.isMultiplier (.number (digit * 10 ^ position)) = false ∧
      digitMask (digit * 10 ^ position) = 2 ^ position := by
  decide +kernel

theorem two_le_of_mem_fused : ∀ value ∈ fused, 2 ≤ value ∧ value ≠ 10 ∧ value ≠ 100 := by decide

theorem not_mem_fused_of_lt : ∀ value < 10, value ∉ fused := by decide

theorem pow_not_mem_fused : ∀ position < 5, 10 ^ position ∉ fused := by decide

end Japanese

/-- A word of the block that waits above a position. -/
structure Pending.IsAbove (pending : Pending) (position : Nat) : Prop where
  free : Positional.FreeTo pending.mask position
  nonzero : pending.mask ≠ 0
  inside : pending.mask < 2 ^ 4
  value : 2 ≤ pending.value

/-- Nothing waits above the thousands. -/
theorem Pending.IsAbove.position_lt {pending : Pending} {position : Nat}
    (above : pending.IsAbove position) : position + 1 < 4 := by
  have least : 2 ^ (position + 1) ≤ pending.mask :=
    Nat.le_of_dvd (Nat.pos_of_ne_zero above.nonzero) (Nat.dvd_of_mod_eq_zero above.free)
  exact (Nat.pow_lt_pow_iff_right (by decide)).1 (Nat.lt_of_le_of_lt least above.inside)

namespace Positional

open Japanese

variable {capacity : Capacity} {bound : Nat} {state : Positional}

/-- What a state is worth if nothing more comes. -/
def worth (state : Positional) : Nat := state.total + (state.block + state.pendingValue 0)

/-- A state before the digit at a position, after some words. -/
structure Awaits (state : Positional) (position : Nat) (before : List Nat) : Prop where
  free : FreeTo state.blockMask position
  above : ∀ pending, state.pending = some pending → pending.IsAbove position
  waits : state.pending.isSome = true ↔ ∃ last ∈ before.getLast?, last ∈ fused

/-- What has been heard of some words that make up a value: not less than the value,
and just the value if no fused word was claimed. -/
structure Hears (start state : Positional) (before : List Nat) (value limit : Nat) : Prop where
  total : state.total = start.total
  large : state.lastLarge = start.lastLarge
  least : value ≤ state.worth
  exact : state.worth = value ↔ before.IsChain Adjoins
  most : state.block + state.pendingValue 0 < limit

theorem awaits_initial (position : Nat) : initial.Awaits position [] :=
  ⟨freeTo_zero position, by simp [initial], by simp [initial]⟩

theorem hears_initial : initial.Hears initial [] 0 1 :=
  ⟨rfl, rfl, Nat.zero_le _, by simp [worth, initial, pendingValue], by decide⟩

/-- A word of one position takes the place of what waits above it. -/
theorem exists_push_below {value position place : Nat} (room : capacity.HoldsBelow bound)
    (plain : isMultiplier (.number value) = false) (mask : digitMask value = 2 ^ place)
    (low : place ≤ position) (free : FreeTo state.blockMask position)
    (above : ∀ pending, state.pending = some pending → pending.IsAbove position)
    (fits : state.block + state.pendingValue 0 < bound) :
    ∃ next, push capacity state (.number value) = .joined next ∧
      next.total = state.total ∧ next.lastLarge = state.lastLarge ∧
      next.block = state.block + state.pendingValue 0 ∧ FreeTo next.blockMask position ∧
      ∃ after, next.pending = some ⟨value, 2 ^ place, after⟩ := by
  have clear : digitMask value &&& state.blockMask = 0 := by
    rw [mask]
    exact free.two_pow_and low
  cases waits : state.pending with
  | none =>
    refine ⟨_, push_wait plain clear waits, rfl, rfl, ?_, free, state.afterMultiplier, ?_⟩
    · simp [wait, pendingValue, waits]
    · simp [wait, Token.number, mask]
  | some pending =>
    -- A fused word waits above the new one, and goes to the block to make room.
    obtain ⟨high, nonzero, -, -⟩ := above pending waits
    have held : state.pendingValue 0 = pending.value := by simp [pendingValue, waits]
    have least : 2 ^ (position + 1) ≤ pending.mask :=
      Nat.le_of_dvd (Nat.pos_of_ne_zero nonzero) (Nat.dvd_of_mod_eq_zero high)
    have less : 2 ^ place < 2 ^ (position + 1) := Nat.pow_lt_pow_right (by decide) (by omega)
    have apart : pending.mask &&& digitMask value = 0 := by
      rw [mask, Nat.and_comm]
      exact high.two_pow_and low
    rw [held] at fits
    refine ⟨_, push_commit room plain clear waits apart (by rw [mask]; omega) fits, rfl, rfl, ?_,
      free.or high, state.afterMultiplier, ?_⟩
    · simp [wait, held]
    · simp [wait, Token.number, mask]

variable {start : Positional} {before : List Nat} {value limit : Nat}

/-- Words that add their worth and claim nothing leave it open whether all is exact. -/
theorem Hears.add (hears : start.Hears state before value limit) {next : Positional}
    {words : List Nat} {worth limit' : Nat} (total : next.total = state.total)
    (large : next.lastLarge = state.lastLarge) (sum : next.worth = state.worth + worth)
    (inner : words.IsChain Adjoins)
    (meets : ∀ last ∈ before.getLast?, ∀ first ∈ words.head?, Adjoins last first)
    (most : next.block + next.pendingValue 0 < limit') :
    start.Hears next (before ++ words) (value + worth) limit' := by
  have least := hears.least
  refine ⟨total.trans hears.total, large.trans hears.large, by omega, ?_, most⟩
  rw [List.isChain_append, ← hears.exact]
  constructor
  · intro same
    exact ⟨by omega, inner, meets⟩
  · rintro ⟨same, -, -⟩
    omega

theorem add_digit_lt {held limit digit : Nat} (less : held < limit) (small : digit < 10)
    (position : Nat) : held + digit * 10 ^ position < (limit + 9) * 10 ^ position := by
  have scaled : digit * 10 ^ position ≤ 9 * 10 ^ position := Nat.mul_le_mul_right _ (by omega)
  have wide : limit * 1 ≤ limit * 10 ^ position :=
    Nat.mul_le_mul_left _ (Nat.pow_pos (by decide))
  rw [Nat.add_mul]
  omega

/-- A fused word waits. -/
theorem exists_read_fused {digit position : Nat} (room : capacity.HoldsBelow bound)
    (small : digit < 10) (upper : position + 1 < 4)
    (merged : digit * 10 ^ (position + 1) ∈ fused) (awaits : state.Awaits (position + 1) before)
    (hears : start.Hears state before value limit) (fits : limit ≤ bound) :
    ∃ next, read capacity state [.number (digit * 10 ^ (position + 1))] = .joined next ∧
      next.Awaits position (before ++ [digit * 10 ^ (position + 1)]) ∧
      start.Hears next (before ++ [digit * 10 ^ (position + 1)])
        (value + digit * 10 ^ (position + 1)) ((limit + 9) * 10 ^ (position + 1)) := by
  have most := hears.most
  obtain ⟨plain, mask⟩ := of_mem_fused _ upper _ small merged
  have bounds := two_le_of_mem_fused _ merged
  obtain ⟨next, push, total, large, held, free, after, pending⟩ :=
    exists_push_below room plain mask (Nat.le_refl _) awaits.free awaits.above (by omega)
  have sum : next.pendingValue 0 = digit * 10 ^ (position + 1) := by simp [pendingValue, pending]
  refine ⟨next, read_cons_of_joined push [], ⟨free.of_le (by omega), ?_, ?_⟩, ?_⟩
  · rintro _ waits
    cases pending.symm.trans waits
    exact ⟨freeTo_two_pow (by omega), Nat.ne_of_gt (Nat.two_pow_pos _),
      Nat.pow_lt_pow_right (by decide) upper, bounds.1⟩
  · simp [pending, merged]
  · refine hears.add total large ?_ (by simp) ?_ ?_
    · rw [worth, worth, total, held, sum]
      omega
    · rintro last _ _ ⟨⟩ _
      exact bounds.2
    · rw [held, sum]
      exact add_digit_lt most small _

/-- A ten or a hundred that is said alone claims the fused word before it, which is then
counted ten or a hundred times. -/
theorem Hears.claim {position : Nat} {pending : Pending}
    (hears : start.Hears state before value limit) (awaits : state.Awaits (position + 1) before)
    (waits : state.pending = some pending) {next : Positional} {limit' : Nat}
    (total : next.total = state.total) (large : next.lastLarge = state.lastLarge)
    (sum : next.block + next.pendingValue 0 = state.block + pending.value * 10 ^ (position + 1))
    (most : next.block + next.pendingValue 0 < limit') :
    start.Hears next (before ++ [10 ^ (position + 1)]) (value + 10 ^ (position + 1)) limit' := by
  have above := awaits.above pending waits
  have low := above.position_lt
  have ten : 10 ^ 1 ≤ 10 ^ (position + 1) := Nat.pow_le_pow_right (by decide) (by omega)
  have held : state.pendingValue 0 = pending.value := by simp [pendingValue, waits]
  obtain ⟨rest, more⟩ : ∃ rest, pending.value = rest + 1 :=
    ⟨pending.value - 1, by have := above.value; omega⟩
  have scaled : rest * 10 ^ 1 ≤ rest * 10 ^ (position + 1) := Nat.mul_le_mul_left _ ten
  have beyond : value + 10 ^ (position + 1) < next.worth := by
    have two := above.value
    have least := hears.least
    rw [worth, held] at least
    rw [worth, total, sum, more, Nat.succ_mul]
    omega
  refine ⟨total.trans hears.total, large.trans hears.large, Nat.le_of_lt beyond, ?_, most⟩
  -- Neither side holds: the worth is too large, and the two words may not adjoin.
  refine iff_of_false (Nat.ne_of_gt beyond) fun chain => ?_
  obtain ⟨last, listed, merged⟩ := awaits.waits.1 (by simp [waits])
  have apart := (List.isChain_append.1 chain).2.2 last listed _ rfl merged
  have tens : position = 0 ∨ position = 1 := by omega
  rcases tens with rfl | rfl <;> simp at apart

/-- A ten, hundred or thousand that is said alone counts once, or claims a fused word. -/
theorem exists_read_bare {position : Nat} (room : capacity.HoldsBelow bound)
    (upper : position + 1 < 4) (awaits : state.Awaits (position + 1) before)
    (hears : start.Hears state before value limit)
    (fits : (limit + 9) * 10 ^ (position + 1) ≤ bound) :
    ∃ next, read capacity state [.number (10 ^ (position + 1))] = .joined next ∧
      next.Awaits position (before ++ [10 ^ (position + 1)]) ∧
      start.Hears next (before ++ [10 ^ (position + 1)]) (value + 10 ^ (position + 1))
        ((limit + 9) * 10 ^ (position + 1)) := by
  have most := hears.most
  have plain := pow_not_mem_fused (position + 1) (by omega)
  have one : state.pendingValue 1 ≤ state.pendingValue 0 + 1 := by
    unfold pendingValue
    cases state.pending <;> simp
  have claimed : state.block + state.pendingValue 1 * 10 ^ (position + 1) <
      (limit + 9) * 10 ^ (position + 1) := by
    have part : state.block * 1 ≤ state.block * 10 ^ (position + 1) :=
      Nat.mul_le_mul_left _ (Nat.pow_pos (by decide))
    have whole : (state.block + state.pendingValue 1 + 1) * 10 ^ (position + 1) ≤
        (limit + 9) * 10 ^ (position + 1) := Nat.mul_le_mul_right _ (by omega)
    have scale : 0 < 10 ^ (position + 1) := Nat.pow_pos (by decide)
    rw [Nat.succ_mul, Nat.add_mul] at whole
    omega
  have push := push_small state room (Nat.add_pos_right position Nat.one_pos) upper awaits.free
    (Nat.lt_of_lt_of_le claimed fits)
  refine ⟨_, read_cons_of_joined push [], ⟨?_, by simp, by simp [plain]⟩, ?_⟩
  · exact (awaits.free.of_le (by omega)).or (freeTo_two_pow (by omega))
  -- Whether a fused word waits is whether the last word is one.
  cases waits : state.pending with
  | none =>
    have alone : state.pendingValue 1 = 1 ∧ state.pendingValue 0 = 0 := by
      simp [pendingValue, waits]
    refine hears.add rfl rfl ?_ (by simp) ?_ claimed
    · rw [worth, worth, alone.1, alone.2]
      simp only [pendingValue, Option.map_none, Option.getD_none]
      omega
    · intro last listed _ _ merged
      have some := awaits.waits.2 ⟨last, listed, merged⟩
      simp [waits] at some
  | some pending =>
    have held : state.pendingValue 1 = pending.value := by simp [pendingValue, waits]
    refine hears.claim awaits waits rfl rfl ?_ claimed
    rw [held]
    rfl

/-- A unit takes the place of what waits above it. -/
theorem exists_push_unit {digit position : Nat} (room : capacity.HoldsBelow bound)
    (positive : 0 < digit) (small : digit < 10) (awaits : state.Awaits position before)
    (fits : state.block + state.pendingValue 0 < bound) :
    ∃ next, push capacity state (.number digit) = .joined next ∧
      next.total = state.total ∧ next.lastLarge = state.lastLarge ∧
      next.block = state.block + state.pendingValue 0 ∧ FreeTo next.blockMask position ∧
      ∃ after, next.pending = some ⟨digit, 2 ^ 0, after⟩ :=
  exists_push_below room (isMultiplier_of_lt small) (digitMask_of_unit digit small positive)
    (Nat.zero_le _) awaits.free awaits.above fits

/-- A digit is said before its ten, hundred or thousand. -/
theorem exists_read_counted {digit position : Nat} (room : capacity.HoldsBelow bound)
    (positive : 0 < digit) (small : digit < 10) (upper : position + 1 < 4)
    (awaits : state.Awaits (position + 1) before) (hears : start.Hears state before value limit)
    (fits : (limit + 9) * 10 ^ (position + 1) ≤ bound) :
    ∃ next, read capacity state [.number digit, .number (10 ^ (position + 1))] = .joined next ∧
      next.Awaits position (before ++ [digit, 10 ^ (position + 1)]) ∧
      start.Hears next (before ++ [digit, 10 ^ (position + 1)])
        (value + digit * 10 ^ (position + 1)) ((limit + 9) * 10 ^ (position + 1)) := by
  have less := add_digit_lt hears.most small (position + 1)
  obtain ⟨middle, push, total, large, held, free, after, pending⟩ :=
    exists_push_unit room positive small awaits (by omega)
  have counted : middle.pendingValue 1 = digit := by simp [pendingValue, pending]
  have claim := push_small middle room (Nat.add_pos_right position Nat.one_pos) upper free (by
    rw [counted, held]
    exact Nat.lt_of_lt_of_le less fits)
  refine ⟨_, (read_cons_of_joined push _).trans (read_cons_of_joined claim []),
    ⟨?_, by simp, ?_⟩, ?_⟩
  · exact (free.of_le (by omega)).or (freeTo_two_pow (by omega))
  · simp [pow_not_mem_fused (position + 1) (by omega)]
  · refine hears.add total large ?_ ?_ ?_ ?_
    · rw [worth, worth, total, held, counted]
      simp only [pendingValue, Option.map_none, Option.getD_none]
      omega
    · have plain : Adjoins digit (10 ^ (position + 1)) :=
        fun merged => absurd merged (not_mem_fused_of_lt digit small)
      simp [plain]
    · rintro last _ _ ⟨⟩ _
      omega
    · rw [held, counted]
      exact less

/-- The words for a digit above the units are heard as what they are worth, unless a ten
or a hundred that is said alone claims a fused word. -/
theorem exists_read_spoken {digit position : Nat} (room : capacity.HoldsBelow bound)
    (small : digit < 10) (upper : position + 1 < 4) (awaits : state.Awaits (position + 1) before)
    (hears : start.Hears state before value limit)
    (fits : (limit + 9) * 10 ^ (position + 1) ≤ bound) :
    ∃ next, read capacity state ((spoken digit (position + 1)).map Token.number) = .joined next ∧
      next.Awaits position (before ++ spoken digit (position + 1)) ∧
      start.Hears next (before ++ spoken digit (position + 1))
        (value + digit * 10 ^ (position + 1)) ((limit + 9) * 10 ^ (position + 1)) := by
  have wide := add_digit_lt hears.most (show 0 < 10 by decide) (position + 1)
  have scale : (limit + 9) * 1 ≤ (limit + 9) * 10 ^ (position + 1) :=
    Nat.mul_le_mul_left _ (Nat.pow_pos (by decide))
  unfold spoken
  split
  · next zero =>
    subst zero
    refine ⟨state, rfl, ⟨awaits.free.of_le (by omega), fun pending waits => ?_, ?_⟩, ?_⟩
    · have above := awaits.above pending waits
      exact ⟨above.free.of_le (by omega), above.nonzero, above.inside, above.value⟩
    · rw [List.append_nil]
      exact awaits.waits
    · exact hears.add rfl rfl (by omega) .nil (by simp) (by omega)
  · next nonzero =>
    split
    · next merged =>
      exact exists_read_fused room small upper (merged.resolve_left (by omega)) awaits hears
        (by omega)
    · split
      · next one =>
        rw [one, Nat.one_mul]
        exact exists_read_bare room upper awaits hears fits
      · exact exists_read_counted room (Nat.pos_of_ne_zero nonzero) small upper awaits hears fits

theorem exists_read_units {digit : Nat} (room : capacity.HoldsBelow bound) (small : digit < 10)
    (awaits : state.Awaits 0 before) (hears : start.Hears state before value limit)
    (fits : limit ≤ bound) :
    ∃ next, read capacity state ((spoken digit 0).map Token.number) = .joined next ∧
      start.Hears next (before ++ spoken digit 0) (value + digit) (limit + 9) := by
  have most := hears.most
  unfold spoken
  split
  · next zero =>
    subst zero
    exact ⟨state, rfl, hears.add rfl rfl (by omega) .nil (by simp) (by omega)⟩
  · next nonzero =>
    rw [if_pos (.inl rfl), Nat.pow_zero, Nat.mul_one]
    obtain ⟨next, push, total, large, held, -, after, pending⟩ :=
      exists_push_unit room (Nat.pos_of_ne_zero nonzero) small awaits (by omega)
    have sum : next.pendingValue 0 = digit := by simp [pendingValue, pending]
    refine ⟨next, read_cons_of_joined push [], hears.add total large ?_ (by simp) ?_ ?_⟩
    · rw [worth, worth, total, held, sum]
      omega
    · rintro last _ _ ⟨⟩ _
      omega
    · rw [held, sum]
      omega

/-- The words for a block of four digits. -/
theorem exists_read_belowTenThousand {n : Nat} (room : capacity.HoldsBelow bound)
    (small : n < 10000) (awaits : state.Awaits 3 before) (hears : start.Hears state before value 1)
    (fits : 10 ^ 8 ≤ bound) :
    ∃ next, read capacity state ((belowTenThousand n).map Token.number) = .joined next ∧
      start.Hears next (before ++ belowTenThousand n) (value + n) (10 ^ 8) := by
  obtain ⟨_, thousands, awaits, hears⟩ := exists_read_spoken room (show n / 1000 < 10 by omega)
    (by decide) awaits hears (by omega)
  obtain ⟨_, hundreds, awaits, hears⟩ := exists_read_spoken room
    (show n / 100 % 10 < 10 by omega) (by decide) awaits hears (by omega)
  obtain ⟨_, tens, awaits, hears⟩ := exists_read_spoken room
    (show n / 10 % 10 < 10 by omega) (by decide) awaits hears (by omega)
  obtain ⟨next, units, hears⟩ := exists_read_units room (show n % 10 < 10 by omega) awaits
    hears (by omega)
  refine ⟨next, ?_, ?_⟩
  · simp only [belowTenThousand, List.map_append, List.append_assoc]
    rw [read_append_of_joined thousands, read_append_of_joined hundreds,
      read_append_of_joined tens, units]
  · have digits : value + n = value + n / 1000 * 10 ^ (2 + 1) + n / 100 % 10 * 10 ^ (1 + 1) +
        n / 10 % 10 * 10 ^ (0 + 1) + n % 10 := by omega
    rw [belowTenThousand, ← List.append_assoc, ← List.append_assoc, ← List.append_assoc, digits]
    exact { hears with most := Nat.lt_of_lt_of_le hears.most (by decide) }

/-- The upper block and its large multiplier go to the total. -/
theorem exists_read_upper {n : Nat} (room : capacity.HoldsBelow bound) (positive : 0 < n)
    (small : n < 10000) (fits : 10 ^ 12 ≤ bound) :
    ∃ next, read capacity .initial ((belowTenThousand n ++ [10000]).map Token.number) =
        .joined next ∧
      next.Awaits 3 (belowTenThousand n ++ [10000]) ∧
      next.Hears next (belowTenThousand n ++ [10000]) (n * 10000) 1 ∧ next.total < 10 ^ 12 := by
  obtain ⟨middle, step, hears⟩ := exists_read_belowTenThousand room small (awaits_initial 3)
    hears_initial (by omega)
  rw [List.nil_append, Nat.zero_add] at hears
  have total : middle.total = 0 := hears.total
  have least := hears.least
  have most := hears.most
  have exact := hears.exact
  rw [worth, total, Nat.zero_add] at least exact
  have counted : middle.base = middle.block + middle.pendingValue 0 := by
    rw [base, if_neg (by omega)]
  let after : Positional := ⟨middle.total + middle.base * 10 ^ 4, 0, 0, none, 10 ^ 4, 10 ^ 4, true⟩
  have close : push capacity middle (.number (10 ^ 4)) = .joined after :=
    push_large room (by decide) (.inl hears.large) (by rw [total, counted]; omega)
  have moved : after.worth = (middle.block + middle.pendingValue 0) * 10000 := by
    show middle.total + middle.base * 10 ^ 4 + (0 + 0) = _
    rw [total, counted]
    omega
  refine ⟨after, ?_, ⟨freeTo_zero 3, by simp [after], by simp [after, fused]⟩,
    ⟨rfl, rfl, by omega, ?_, Nat.one_pos⟩, ?_⟩
  · rw [List.map_append, read_append_of_joined step]
    exact read_cons_of_joined close []
  · -- The large multiplier claims nothing, and it scales both sides.
    rw [moved, List.isChain_append, ← exact]
    constructor
    · intro same
      refine ⟨by omega, by simp, ?_⟩
      rintro last _ _ ⟨⟩ _
      decide
    · rintro ⟨same, -, -⟩
      omega
  · rw [show after.total = middle.total + middle.base * 10 ^ 4 from rfl, total, counted]
    omega

/-- A reading is heard as a number that is not less, and as the number itself if no fused
word comes before a ten or a hundred that is said alone. -/
theorem exists_read_reading {n : Nat} (room : capacity.HoldsBelow bound) (small : n < 10 ^ 8)
    (fits : 10 ^ 13 ≤ bound) :
    ∃ next, read capacity .initial ((reading n).map Token.number) = .joined next ∧
      n ≤ next.worth ∧ (next.worth = n ↔ (reading n).IsChain Adjoins) ∧ next.worth < bound := by
  unfold reading
  split
  · next lower =>
    have same : n % 10000 = n := by omega
    obtain ⟨next, step, hears⟩ := exists_read_belowTenThousand room
      (show n % 10000 < 10000 by omega) (awaits_initial 3) hears_initial (by omega)
    rw [List.nil_append, Nat.zero_add, same] at hears
    rw [List.nil_append, same] at *
    have total : next.total = 0 := hears.total
    have most := hears.most
    exact ⟨next, step, hears.least, hears.exact, by rw [worth, total]; omega⟩
  · next upper =>
    obtain ⟨middle, high, awaits, hears, total⟩ := exists_read_upper room
      (show 0 < n / 10000 by omega) (by omega) (by omega)
    obtain ⟨next, low, hears⟩ := exists_read_belowTenThousand room
      (show n % 10000 < 10000 by omega) awaits hears (by omega)
    have whole : n / 10000 * 10000 + n % 10000 = n := by omega
    rw [whole] at hears
    have held := hears.total
    have most := hears.most
    refine ⟨next, ?_, hears.least, hears.exact, by rw [worth, held]; omega⟩
    rw [List.map_append, read_append_of_joined high, low]

end Positional

namespace Japanese

theorem toDigits_inj {first second : Nat} :
    Nat.toDigits 10 first = Nat.toDigits 10 second ↔ first = second := by
  refine ⟨fun same => ?_, fun same => by rw [same]⟩
  have read := congrArg (Nat.ofDigitChars 10 · 0) same
  simpa [Nat.ofDigitChars_toDigits] using read

/-- What is heard of a reading is the number just if no fused word comes before a ten or a
hundred that is said alone. -/
theorem reads_iff_isChain {n : Nat} {text : List Char} (positive : 0 < n) (small : n < 10 ^ 8)
    (spelled : Spells readings (reading n) text) :
    Scheme.japanese.reader.read? text = some (Nat.toDigits 10 n) ↔
      (reading n).IsChain Adjoins := by
  have whole := spelled.of_subset (List.subset_append_right characters readings)
  obtain ⟨next, joined, least, exact, fits⟩ := Positional.exists_read_reading
    Capacity.holdsBelow_word64 small (by decide)
  have nonempty : reading n ≠ [] := by
    intro nothing
    rw [nothing] at joined
    cases joined
    have none : Positional.initial.worth = 0 := rfl
    omega
  have sum : next.total + next.block + next.tail false = next.worth := by
    rw [Positional.tail_eq_pendingValue fun _ _ abbreviates => by simp at abbreviates,
      Nat.add_assoc, Positional.worth]
  have heard : Scheme.japanese.reader.read? text = some (Nat.toDigits 10 next.worth) := by
    rw [read?_of_spells whole nonempty]
    refine Positional.resolve_of_read joined sum fits (by simp [Token.number])
      (by simpa using nonempty) ?_ ?_ _
    · rw [List.head_map]
      rfl
    · rw [List.getLast_map]
      rfl
  rw [heard, Option.some_inj, toDigits_inj, exact]

/-- A fused word may come before a counted ten and before a unit. -/
theorem reads_three_hundred_twenty :
    Scheme.japanese.reader.read? "はっせんさんびゃくまんろっぴゃくにじゅうご".toList =
        some "83000625".toList ∧
      Scheme.japanese.reader.read? "さんびゃくじゅう".toList ≠ some "310".toList := by
  have apart : Spells readings (reading 83000625) "はっせんさんびゃくまんろっぴゃくにじゅうご".toList :=
    spells_of_subset [(8000, "はっせん"), (300, "さんびゃく"), (10000, "まん"), (600, "ろっぴゃく"),
      (2, "に"), (10, "じゅう"), (5, "ご")] (by decide) (by decide +kernel) (by decide +kernel)
  have touching : Spells readings (reading 310) "さんびゃくじゅう".toList :=
    spells_of_subset [(300, "さんびゃく"), (10, "じゅう")] (by decide) (by decide +kernel)
      (by decide +kernel)
  constructor
  · exact (reads_iff_isChain (by decide) (by decide) apart).2 (by decide +kernel)
  · exact fun reads =>
      absurd ((reads_iff_isChain (by decide) (by decide) touching).1 reads) (by decide +kernel)

/-- The reading of 310 is read as 300 tens. -/
theorem reads_three_hundred_ten :
    Spells readings (reading 310) "さんびゃくじゅう".toList ∧
      Scheme.japanese.reader.read? "さんびゃくじゅう".toList = some "3000".toList := by
  have spelled : Spells readings (reading 310) "さんびゃくじゅう".toList :=
    spells_of_subset [(300, "さんびゃく"), (10, "じゅう")] (by decide) (by decide +kernel)
      (by decide +kernel)
  refine ⟨spelled, ?_⟩
  rw [read?_of_spells (spelled.of_subset (List.subset_append_right characters readings))
    (by decide +kernel)]
  decide +kernel

/-- Every number below 10^8 can be read aloud. -/
theorem exists_spells_reading {n : Nat} (small : n < 10 ^ 8) :
    ∃ text, Spells readings (reading n) text := by
  have digits : ∀ position < 4, ∀ digit < 10, ∀ value ∈ spoken digit position,
      value ∈ readings.map Prod.fst := by
    decide +kernel
  have block {m value : Nat} (below : m < 10000) (member : value ∈ belowTenThousand m) :
      value ∈ readings.map Prod.fst := by
    simp only [belowTenThousand, List.mem_append] at member
    rcases member with ((thousands | hundreds) | tens) | units
    · exact digits 3 (by decide) _ (by omega) value thousands
    · exact digits 2 (by decide) _ (by omega) value hundreds
    · exact digits 1 (by decide) _ (by omega) value tens
    · exact digits 0 (by decide) _ (by omega) value units
  apply exists_spells
  intro value member
  rcases List.mem_append.1 member with upper | lower
  · split at upper
    · simp at upper
    · rcases List.mem_append.1 upper with counts | large
      · exact block (by omega) counts
      · rw [List.mem_singleton.1 large]
        decide
  · exact block (by omega) lower

end Japanese

end Phrasebook.Numeral
