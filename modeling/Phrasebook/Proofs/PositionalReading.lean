import Mathlib.Data.Nat.Bitwise
import Phrasebook.Numeral.Positional
import Phrasebook.Proofs.WesternReading

/-! How a Japanese or Chinese number grows.

A unit waits, a small multiplier claims what waits and moves it into the block, a
large one moves the block into the total, and a linking word only ends the time
right after a multiplier. A mask is free up to a position if none of the positions
from there down has been supplied.
-/

set_option autoImplicit false

namespace Phrasebook.Numeral

namespace Positional

variable {capacity : Capacity} {bound : Nat} {state : Positional}

/-- No position up to this one has been supplied. -/
def FreeTo (mask position : Nat) : Prop := mask % 2 ^ (position + 1) = 0

theorem FreeTo.of_le {mask position lower : Nat} (free : FreeTo mask position)
    (low : lower ≤ position) : FreeTo mask lower := by
  have shorter : 2 ^ (lower + 1) ∣ 2 ^ (position + 1) := Nat.pow_dvd_pow 2 (by omega)
  exact Nat.mod_eq_zero_of_dvd (Nat.dvd_trans shorter (Nat.dvd_of_mod_eq_zero free))

/-- A position that is supplied leaves those below it free. -/
theorem FreeTo.or {mask other position : Nat} (free : FreeTo mask position)
    (apart : FreeTo other position) : FreeTo (mask ||| other) position := by
  rw [FreeTo, Nat.or_mod_two_pow, free, apart]
  rfl

theorem freeTo_two_pow {position above : Nat} (less : position < above) :
    FreeTo (2 ^ above) position :=
  Nat.mod_eq_zero_of_dvd (Nat.pow_dvd_pow 2 (by omega))

theorem freeTo_zero (position : Nat) : FreeTo 0 position := Nat.zero_mod _

theorem FreeTo.and_eq_zero {mask position : Nat} (free : FreeTo mask position) :
    mask &&& (2 ^ (position + 1) - 1) = 0 := by
  rw [Nat.and_two_pow_sub_one_eq_mod]
  exact free

theorem FreeTo.two_pow_and {mask position place : Nat} (free : FreeTo mask position)
    (low : place ≤ position) : 2 ^ place &&& mask = 0 := by
  obtain ⟨rest, rfl⟩ := Nat.dvd_of_mod_eq_zero free
  have outside : ¬position + 1 ≤ place := by omega
  simp [Nat.two_pow_and, Nat.testBit_two_pow_mul, outside]

/-- Every multiplier is worth ten at least. -/
theorem isMultiplier_pow {exponent : Nat} (positive : 0 < exponent) :
    isMultiplier (.number (10 ^ exponent)) = true := by
  have ten : 10 ^ 1 ≤ 10 ^ exponent := Nat.pow_le_pow_right (by decide) positive
  have least : (decide (10 ≤ 10 ^ exponent)) = true := decide_eq_true (by omega)
  rw [show isMultiplier (.number (10 ^ exponent)) =
    (decide (10 ≤ 10 ^ exponent) && isPowerOfTen (10 ^ exponent)) from rfl, least,
    isPowerOfTen_pow]
  rfl

theorem isMultiplier_of_lt {value : Nat} (small : value < 10) :
    isMultiplier (.number value) = false := by
  rw [show isMultiplier (.number value) = (decide (10 ≤ value) && isPowerOfTen value) from rfl,
    decide_eq_false (by omega), Bool.false_and]

theorem highest_pow (exponent : Nat) : (Token.number (10 ^ exponent)).highest = exponent :=
  position_pow exponent

/-- A linking word ends the time right after a multiplier. -/
theorem push_connector (started : state.started = true) :
    push capacity state .connector = .joined { state with afterMultiplier := false } := by
  simp [push, Token.isConnector, Token.connector, started]

/-- Where nothing waits, a word with free positions waits. -/
theorem push_wait {value : Nat} (plain : isMultiplier (.number value) = false)
    (free : digitMask value &&& state.blockMask = 0) (vacant : state.pending = none) :
    push capacity state (.number value) = .joined (state.wait (.number value)) := by
  rw [push, if_neg (by simp [Token.isConnector, Token.number]), if_neg (by simp [plain]), add,
    if_neg (by simpa [Token.number] using free), vacant]

/-- A digit waits where nothing else does. -/
theorem push_digit {digit : Nat} (positive : 0 < digit) (small : digit < 10)
    (vacant : state.pending = none) (free : FreeTo state.blockMask 0) :
    push capacity state (.number digit) = .joined (state.wait (.number digit)) := by
  apply push_wait (isMultiplier_of_lt small) _ vacant
  rw [digitMask_of_unit digit small positive, Nat.one_and_eq_mod_two]
  exact free

/-- A word that is lower than what waits takes its place. -/
theorem push_commit {value : Nat} {pending : Pending} (room : capacity.HoldsBelow bound)
    (plain : isMultiplier (.number value) = false)
    (free : digitMask value &&& state.blockMask = 0) (waits : state.pending = some pending)
    (apart : pending.mask &&& digitMask value = 0) (lower : digitMask value ≤ pending.mask)
    (fits : state.block + pending.value < bound) :
    push capacity state (.number value) =
      .joined (Positional.wait
        { state with
          block := state.block + pending.value
          blockMask := state.blockMask ||| pending.mask } (.number value)) := by
  have held := room _ fits
  have allowed : ¬(pending.mask &&& (Token.number value).mask ≠ 0 ∨
      pending.mask < (Token.number value).mask) := by
    simp only [Token.number, apart]
    omega
  rw [push, if_neg (by simp [Token.isConnector, Token.number]), if_neg (by simp [plain]), add,
    if_neg (by simpa [Token.number] using free), waits]
  simp only
  rw [if_neg allowed, held]
  rfl

/-- Ten, hundred and thousand claim what waits. -/
theorem push_small {exponent : Nat} (state : Positional) (room : capacity.HoldsBelow bound)
    (positive : 0 < exponent) (small : exponent < 4) (free : FreeTo state.blockMask exponent)
    (fits : state.block + state.pendingValue 1 * 10 ^ exponent < bound) :
    push capacity state (.number (10 ^ exponent)) =
      .joined
        { state with
          block := state.block + state.pendingValue 1 * 10 ^ exponent
          blockMask := state.blockMask ||| 2 ^ exponent
          pending := none
          lastMultiplier := 10 ^ exponent
          afterMultiplier := true } := by
  have less : 10 ^ exponent < 10000 :=
    Nat.lt_of_lt_of_le (Nat.pow_lt_pow_right (by decide) small) (by decide)
  have held := room _ fits
  have place := highest_pow exponent
  rw [push, if_neg (by simp [Token.isConnector, Token.number]),
    if_pos (isMultiplier_pow positive), multiply,
    if_pos (by simpa only [Token.number] using less), place, Nat.one_shiftLeft,
    if_neg (by rw [free.and_eq_zero]; simp), Nat.one_shiftLeft]
  simp only [Token.number, held, Verdict.ofHeld]

/-- What a large multiplier moves into the total; on its own it counts once. -/
def base (state : Positional) : Nat :=
  if state.block + state.pendingValue 0 = 0 then 1 else state.block + state.pendingValue 0

/-- A large multiplier below the last one moves the block into the total. -/
theorem push_large {exponent : Nat} (room : capacity.HoldsBelow bound) (large : 4 ≤ exponent)
    (below : state.lastLarge = 0 ∨ 10 ^ exponent < state.lastLarge)
    (fits : state.total + state.base * 10 ^ exponent < bound) :
    push capacity state (.number (10 ^ exponent)) =
      .joined
        { total := state.total + state.base * 10 ^ exponent
          block := 0
          blockMask := 0
          pending := none
          lastMultiplier := 10 ^ exponent
          lastLarge := 10 ^ exponent
          afterMultiplier := true } := by
  have least : 10 ^ 4 ≤ 10 ^ exponent := Nat.pow_le_pow_right (by decide) large
  have held := room _ fits
  rw [base] at held
  rw [push, if_neg (by simp [Token.isConnector, Token.number]),
    if_pos (isMultiplier_pow (by omega)), multiply,
    if_neg (by simp only [Token.number]; omega),
    if_neg (by simp only [Token.number]; omega)]
  simp only [Token.number, held, Verdict.ofHeld, base]

/-- A last unit right after ten is not abbreviated. -/
theorem tail_eq_pendingValue {abbreviates : Bool}
    (exact : ∀ pending, state.pending = some pending → abbreviates = true →
      pending.afterMultiplier = true → state.lastMultiplier = 10) :
    state.tail abbreviates = state.pendingValue 0 := by
  unfold tail pendingValue
  cases waits : state.pending with
  | none => rfl
  | some pending =>
    simp only
    split
    · next abbreviated =>
      simp only [Bool.and_eq_true] at abbreviated
      rw [exact pending waits abbreviated.1.1.1 abbreviated.1.1.2]
      exact Nat.mul_one _
    · rfl

/-- Read tokens from a state on. -/
def read (capacity : Capacity) (state : Positional) : List Token → Verdict Positional
  | [] => .joined state
  | token :: rest => (push capacity state token).bind fun next => read capacity next rest

theorem replay_eq_read (capacity : Capacity) (abbreviates : Bool) (state : Positional)
    (tokens : List Token) :
    (grammar capacity abbreviates).replay state tokens = read capacity state tokens := by
  induction tokens generalizing state with
  | nil => rfl
  | cons token rest ih =>
    show (push capacity state token).bind (fun next =>
      (grammar capacity abbreviates).replay next rest) = read capacity state (token :: rest)
    rw [read]
    exact congrArg _ (funext fun next => ih next)

theorem read_append (state : Positional) (first second : List Token) :
    read capacity state (first ++ second) =
      (read capacity state first).bind fun next => read capacity next second := by
  induction first generalizing state with
  | nil => rfl
  | cons token rest ih =>
    rw [List.cons_append, read, read, Verdict.bind_assoc]
    exact congrArg _ (funext fun next => ih next)

theorem read_append_of_joined {first : List Token} {next : Positional}
    (joined : read capacity state first = .joined next) (second : List Token) :
    read capacity state (first ++ second) = read capacity next second := by
  rw [read_append, joined]
  rfl

theorem read_cons_of_joined {token : Token} {next : Positional}
    (joined : push capacity state token = .joined next) (rest : List Token) :
    read capacity state (token :: rest) = read capacity next rest := by
  rw [read, joined]
  rfl

/-- Words that all join one number are written as its digits. -/
theorem resolve_of_read {tokens : List Token} {after : Positional} {abbreviates : Bool} {n : Nat}
    (joined : read .word64 .initial tokens = .joined after)
    (total : after.total + after.block + after.tail abbreviates = n) (small : n < UInt64.size)
    (spoken : ∀ token ∈ tokens, token.kind ≠ .explicit) (nonempty : tokens ≠ [])
    (begins : (tokens.head nonempty).isConnector = false)
    (ends : (tokens.getLast nonempty).isConnector = false) (order : ReadingOrder) :
    (grammar .word64 abbreviates).resolve order tokens = some (Nat.toDigits 10 n) := by
  have value : (grammar .word64 abbreviates).value? after = some n := by
    rw [← total] at small ⊢
    exact Capacity.holdsBelow_word64 _ small
  rw [← replay_eq_read .word64 abbreviates] at joined
  exact Grammar.resolve_of_replay joined value spoken (List.head?_eq_some_head nonempty) begins
    (List.getLast?_eq_some_getLast nonempty) ends order

/-- A state right after the multiplier `value`. -/
structure After (state : Positional) (value : Nat) : Prop where
  vacant : state.pending = none
  free : FreeTo state.blockMask 0
  last : state.lastMultiplier = value
  fresh : state.afterMultiplier = true
  started : state.started = true

theorem after_of_push {exponent : Nat} (positive : 0 < exponent) {next : Positional}
    (joined : push capacity state (.number (10 ^ exponent)) = .joined next) :
    next.After (10 ^ exponent) := by
  -- Both kinds of multiplier make a new state of a value, if the value can be held.
  have held : ∀ {found : Option Nat} {change : Nat → Positional},
      (∀ value, (change value).After (10 ^ exponent)) →
      Verdict.ofHeld found change = .joined next → next.After (10 ^ exponent) := by
    intro found change all eq
    cases found with
    | none => simp [Verdict.ofHeld] at eq
    | some value =>
      cases eq
      exact all value
  rw [push, if_neg (by simp [Token.isConnector, Token.number]),
    if_pos (isMultiplier_pow positive), multiply] at joined
  split at joined
  · split at joined
    · simp at joined
    · next allowed =>
      rw [highest_pow, Nat.one_shiftLeft, Nat.and_two_pow_sub_one_eq_mod, ne_eq,
        Decidable.not_not] at allowed
      rw [highest_pow, Nat.one_shiftLeft] at joined
      have free : FreeTo (state.blockMask ||| 2 ^ exponent) 0 :=
        (FreeTo.of_le allowed (Nat.zero_le exponent)).or (freeTo_two_pow positive)
      exact held (fun _ => ⟨rfl, free, rfl, rfl, by simp [started]⟩) joined
  · split at joined
    · simp at joined
    · exact held (fun _ => ⟨rfl, freeTo_zero 0, rfl, rfl, by simp [started, Token.number]⟩) joined

/-- Whatever was read before it, a multiplier that joins has claimed it. -/
theorem after_of_read {front : List Token} {exponent : Nat} (positive : 0 < exponent)
    {next : Positional}
    (joined : read capacity state (front ++ [.number (10 ^ exponent)]) = .joined next) :
    next.After (10 ^ exponent) := by
  rw [read_append] at joined
  cases step : read capacity state front with
  | refused | overflow => simp [step, Verdict.bind] at joined
  | joined middle =>
    rw [step] at joined
    cases last : push capacity middle (.number (10 ^ exponent)) with
    | refused | overflow => simp [Verdict.bind, read, last] at joined
    | joined after =>
      simp only [Verdict.bind, read, last] at joined
      cases joined
      exact after_of_push positive last

end Positional

end Phrasebook.Numeral
