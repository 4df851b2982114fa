import Mathlib.Algebra.Group.Nat.Defs
import Phrasebook.Proofs.TokenGroups

/-! How a Western number grows.

A word that supplies free positions adds its value, a hundred scales what came
before it, and a smaller scale word moves the section before it into the total.
None of them looks ahead, and a linking word changes nothing.
-/

set_option autoImplicit false

namespace Phrasebook.Numeral

/-- All values below a bound can be held. -/
def Capacity.HoldsBelow (capacity : Capacity) (bound : Nat) : Prop :=
  ∀ value, value < bound → capacity.hold? value = some value

theorem Capacity.holdsBelow_word64 : word64.HoldsBelow UInt64.size := by
  intro value less
  rw [hold?_word64, if_pos less]

theorem position_pow (exponent : Nat) : position (10 ^ exponent) = exponent := by
  induction exponent with
  | zero => rw [position, if_pos (by decide)]
  | succ exponent ih =>
    have positive : 0 < 10 ^ exponent := Nat.pow_pos (by decide)
    rw [position, if_neg (by rw [Nat.pow_succ]; omega), Nat.pow_succ,
      Nat.mul_div_cancel _ (by decide), ih]

theorem isPowerOfTen_pow (exponent : Nat) : isPowerOfTen (10 ^ exponent) = true := by
  rw [isPowerOfTen, position_pow]
  exact beq_self_eq_true _

theorem digitMask_of_unit : ∀ unit < 10, 0 < unit → digitMask unit = 1 := by
  intro unit small positive
  have nonzero := Nat.ne_of_gt positive
  rw [digitMask, if_neg nonzero, nonzeroPositions, if_neg nonzero, Nat.mod_eq_of_lt small,
    if_neg nonzero, Nat.div_eq_of_lt small, nonzeroPositions, if_pos rfl]

theorem digitMask_of_tens : ∀ tens < 10, 0 < tens → digitMask (tens * 10) = 2 := by decide +kernel

theorem digitMask_lt_four : ∀ value < 100, digitMask value < 4 := by decide +kernel

/-- Where no unit and no ten has been supplied, a word below a hundred fits. -/
theorem and_digitMask_eq_zero {mask value : Nat} (free : mask &&& 3 = 0) (small : value < 100) :
    mask &&& digitMask value = 0 := by
  have inside : ∀ low < 4, 3 &&& low = low := by decide
  rw [← inside _ (digitMask_lt_four value small), ← Nat.and_assoc, free, Nat.zero_and]

namespace Western

variable {capacity : Capacity} {rule : ConnectorRule} {bound : Nat} {state : Western}

theorem isMultiplier_number (value : Nat) :
    isMultiplier (.number value) = (decide (100 ≤ value) && isPowerOfTen value) := rfl

theorem push_eq_of_number (state : Western) {token : Token} (plain : token.isConnector = false)
    (next other : Option Token) :
    push capacity rule state token next = push capacity rule state token other := by
  simp [push, plain]

/-- A linking word changes nothing. -/
theorem push_connector {token : Token} (started : state.started = true)
    (admitted : rule.admits (some token) = true) :
    push capacity rule state .connector (some token) = .joined state := by
  simp [push, Token.isConnector, Token.connector, started, admitted]

/-- Whatever has joined a number has started it. -/
theorem started_of_push {token : Token} {next : Option Token} {after : Western}
    (plain : token.isConnector = false)
    (joined : push capacity rule state token next = .joined after) : after.started = true := by
  have held : ∀ {found : Option Nat} {change : Nat → Western},
      (∀ value, (change value).started = true) → Verdict.ofHeld found change = .joined after →
      after.started = true := by
    intro found change all eq
    cases found with
    | none => simp [Verdict.ofHeld] at eq
    | some value =>
      cases eq
      exact all value
  -- Every way to join ends in a number that is held.
  unfold push at joined
  rw [plain, if_neg (by simp)] at joined
  split at joined
  · unfold multiply at joined
    split at joined
    · split at joined
      · simp at joined
      · exact held (fun _ => rfl) joined
    · split at joined
      · simp at joined
      · exact held (fun _ => rfl) joined
  · unfold add at joined
    split at joined
    · simp at joined
    · exact held (fun _ => rfl) joined

/-- A word adds its value if its positions are free. -/
theorem push_add {value : Nat} (room : capacity.HoldsBelow bound)
    (plain : isMultiplier (.number value) = false) (free : state.mask &&& digitMask value = 0)
    (fits : state.current + value < bound) (next : Option Token) :
    push capacity rule state (.number value) next =
      .joined { state with
        current := state.current + value
        mask := state.mask ||| digitMask value
        started := true } := by
  have held := room _ fits
  simp only [push, Token.isConnector, Token.number, add] at plain ⊢
  simp [plain, free, held, Verdict.ofHeld]

/-- A hundred scales what stands below the hundreds. -/
theorem push_hundred (room : capacity.HoldsBelow bound) (low : state.mask >>> 2 = 0)
    (fits : state.base * 100 < bound) (next : Option Token) :
    push capacity rule state (.number 100) next =
      .joined { state with current := state.base * 100, mask := 4, started := true } := by
  have scales : isMultiplier (.number 100) = true := by decide +kernel
  have place : (Token.number 100).highest = 2 := by decide +kernel
  have held := room _ fits
  simp only [push, multiply, scales, place, low]
  simp [Token.isConnector, Token.number, held, Verdict.ofHeld]

theorem isMultiplier_pow {exponent : Nat} (large : 3 ≤ exponent) :
    isMultiplier (.number (10 ^ exponent)) = true := by
  have least : 10 ^ 3 ≤ 10 ^ exponent := Nat.pow_le_pow_right (by decide) large
  rw [isMultiplier_number, isPowerOfTen_pow, Bool.and_true, decide_eq_true_eq]
  omega

/-- A scale word below the last one moves the section into the total. -/
theorem push_scale {exponent : Nat} (room : capacity.HoldsBelow bound) (large : 3 ≤ exponent)
    (below : state.scale = 0 ∨ 10 ^ exponent < state.scale)
    (fits : state.total + state.base * 10 ^ exponent < bound) (next : Option Token) :
    push capacity rule state (.number (10 ^ exponent)) next =
      .joined
        { total := state.total + state.base * 10 ^ exponent
          current := 0
          mask := 0
          scale := 10 ^ exponent
          started := true } := by
  have least : 10 ^ 3 ≤ 10 ^ exponent := Nat.pow_le_pow_right (by decide) large
  have smaller : ¬(state.scale ≠ 0 ∧ state.scale ≤ (Token.number (10 ^ exponent)).value) := by
    simp only [Token.number]
    omega
  have high : ¬(Token.number (10 ^ exponent)).value < 1000 := by
    simp only [Token.number]
    omega
  have held := room _ fits
  rw [push, if_neg (by simp [Token.isConnector, Token.number]), if_pos (isMultiplier_pow large),
    multiply, if_neg high, if_neg smaller]
  simp [Token.number, held, Verdict.ofHeld]

/-- Read tokens from a state on. -/
def read (capacity : Capacity) (rule : ConnectorRule) (state : Western) (tokens : List Token) :
    Verdict Western :=
  (grammar capacity rule).replay state tokens

theorem read_cons (state : Western) (token : Token) (rest : List Token) :
    read capacity rule state (token :: rest) =
      (push capacity rule state token rest.head?).bind fun next =>
        read capacity rule next rest := rfl

theorem read_cons_of_push {token : Token} (plain : token.isConnector = false) {after : Western}
    (step : push capacity rule state token none = .joined after) (rest : List Token) :
    read capacity rule state (token :: rest) = read capacity rule after rest := by
  rw [read_cons, push_eq_of_number state plain rest.head? none, step]
  rfl

theorem read_cons_add {value : Nat} (room : capacity.HoldsBelow bound)
    (plain : isMultiplier (.number value) = false) (free : state.mask &&& digitMask value = 0)
    (fits : state.current + value < bound) (rest : List Token) :
    read capacity rule state (.number value :: rest) =
      read capacity rule
        { state with
          current := state.current + value
          mask := state.mask ||| digitMask value
          started := true } rest :=
  read_cons_of_push rfl (push_add room plain free fits none) rest

theorem read_cons_hundred (room : capacity.HoldsBelow bound) (low : state.mask >>> 2 = 0)
    (fits : state.base * 100 < bound) (rest : List Token) :
    read capacity rule state (.number 100 :: rest) =
      read capacity rule { state with current := state.base * 100, mask := 4, started := true }
        rest :=
  read_cons_of_push rfl (push_hundred room low fits none) rest

theorem read_cons_scale {exponent : Nat} (room : capacity.HoldsBelow bound) (large : 3 ≤ exponent)
    (below : state.scale = 0 ∨ 10 ^ exponent < state.scale)
    (fits : state.total + state.base * 10 ^ exponent < bound) (rest : List Token) :
    read capacity rule state (.number (10 ^ exponent) :: rest) =
      read capacity rule
        { total := state.total + state.base * 10 ^ exponent
          current := 0
          mask := 0
          scale := 10 ^ exponent
          started := true } rest :=
  read_cons_of_push rfl (push_scale room large below fits none) rest

theorem read_append {first : List Token} {after : Western}
    (plain : ∀ token ∈ first.getLast?, token.isConnector = false)
    (step : read capacity rule state first = .joined after) (second : List Token) :
    read capacity rule state (first ++ second) = read capacity rule after second := by
  have steady : ∀ token ∈ first.getLast?, ∀ (state : Western) next other,
      push capacity rule state token next = push capacity rule state token other :=
    fun token member state => push_eq_of_number state (plain token member)
  have split : read capacity rule state (first ++ second) =
      (read capacity rule state first).bind fun next => read capacity rule next second :=
    Grammar.replay_append (g := grammar capacity rule) steady state
  rw [split, step]
  rfl

/-- A linking word between two others changes nothing. -/
theorem read_cons_connector {first second : Token} (plain : first.isConnector = false)
    (admitted : rule.admits (some second) = true) (rest : List Token) :
    read capacity rule state (first :: .connector :: second :: rest) =
      read capacity rule state (first :: second :: rest) := by
  rw [read_cons, read_cons state first (second :: rest),
    push_eq_of_number state plain (List.head? _) none,
    push_eq_of_number state plain (second :: rest).head? none]
  cases step : push capacity rule state first none with
  | refused | overflow => rfl
  | joined next =>
    simp only [Verdict.bind]
    rw [read_cons, List.head?_cons, push_connector (started_of_push plain step) admitted]
    rfl

/-- What has been added to a state; its total and its scale are the same. -/
structure Adds (before after : Western) (value : Nat) : Prop where
  current : after.current = before.current + value
  total : after.total = before.total
  scale : after.scale = before.scale

theorem plain_of_mem_map {values : List Nat} :
    ∀ token ∈ (values.map Token.number).getLast?, token.isConnector = false := by
  intro token member
  obtain ⟨value, -, rfl⟩ := List.mem_map.1 (List.mem_of_getLast? member)
  rfl

theorem isMultiplier_of_lt {value : Nat} (small : value < 100) :
    isMultiplier (.number value) = false := by
  rw [isMultiplier_number, decide_eq_false (by omega), Bool.false_and]

/-- A word below a hundred. -/
theorem exists_read_word {value : Nat} (room : capacity.HoldsBelow bound) (small : value < 100)
    (free : state.mask &&& 3 = 0) (fits : state.current + value < bound) :
    ∃ next, read capacity rule state ([value].map Token.number) = .joined next ∧
      Adds state next value := by
  rw [List.map_singleton, read_cons_add room (isMultiplier_of_lt small)
    (and_digitMask_eq_zero free small) fits]
  exact ⟨_, rfl, rfl, rfl, rfl⟩

/-- A word for tens leaves the position of the unit free. -/
theorem exists_read_tens {n : Nat} (room : capacity.HoldsBelow bound) (ten : 10 ≤ n)
    (small : n < 100) (unit : n % 10 ≠ 0) (free : state.mask &&& 3 = 0)
    (fits : state.current + n < bound) :
    ∃ next, read capacity rule state ([n / 10 * 10, n % 10].map Token.number) = .joined next ∧
      Adds state next n := by
  have high := digitMask_of_tens (n / 10) (by omega) (by omega)
  have low := digitMask_of_unit (n % 10) (by omega) (by omega)
  have left : (state.mask ||| digitMask (n / 10 * 10)) &&& digitMask (n % 10) = 0 := by
    rw [Nat.and_or_distrib_right, and_digitMask_eq_zero free (by omega), high, low]
    rfl
  rw [List.map_cons, List.map_singleton,
    read_cons_add room (isMultiplier_of_lt (by omega)) (and_digitMask_eq_zero free (by omega))
      (by omega),
    read_cons_add room (isMultiplier_of_lt (by omega)) left (by simp only; omega)]
  exact ⟨_, rfl, by simp only; omega, rfl, rfl⟩

/-- A hundred on its own counts once. -/
theorem read_hundred (room : capacity.HoldsBelow bound)
    (fresh : state.current = 0 ∧ state.mask = 0) (fits : 100 < bound) :
    read capacity rule state ([100].map Token.number) =
      .joined { state with current := 100, mask := 4, started := true } := by
  have once : state.base = 1 := if_pos fresh.1
  rw [List.map_singleton, read_cons_hundred room (by rw [fresh.2]; rfl) (by rw [once]; exact fits),
    once]
  rfl

theorem read_hundreds {digit : Nat} (room : capacity.HoldsBelow bound) (positive : 0 < digit)
    (small : digit < 10) (fresh : state.current = 0 ∧ state.mask = 0) (fits : digit * 100 < bound) :
    read capacity rule state ([digit, 100].map Token.number) =
      .joined { state with current := digit * 100, mask := 4, started := true } := by
  obtain ⟨total, current, mask, scale, started⟩ := state
  obtain ⟨rfl, rfl⟩ := fresh
  have one := digitMask_of_unit digit small positive
  have counted : base ⟨total, 0 + digit, 0 ||| digitMask digit, scale, true⟩ = digit := by
    rw [base, if_neg (by simp only; omega), Nat.zero_add]
  have low : (0 ||| digitMask digit) >>> 2 = 0 := by
    rw [one]
    rfl
  rw [List.map_cons, List.map_singleton,
    read_cons_add room (isMultiplier_of_lt (by omega)) (Nat.zero_and _) (by simp only; omega),
    read_cons_hundred room low (by rw [counted]; exact fits), counted]
  rfl

theorem Adds.base_eq {before after : Western} {count : Nat} (added : Adds before after count)
    (empty : before.current = 0) (positive : 0 < count) : after.base = count := by
  rw [base, added.current, empty, Nat.zero_add, if_neg (by omega)]

/-- A scale word moves what the words before it have added into the total. -/
theorem read_scaled {tokens : List Token} {count exponent : Nat} {middle : Western}
    (room : capacity.HoldsBelow bound) (large : 3 ≤ exponent) (positive : 0 < count)
    (empty : state.current = 0) (below : state.scale = 0 ∨ 10 ^ exponent < state.scale)
    (plain : ∀ token ∈ tokens.getLast?, token.isConnector = false)
    (step : read capacity rule state tokens = .joined middle)
    (added : Adds state middle count) (fits : state.total + count * 10 ^ exponent < bound) :
    read capacity rule state (tokens ++ [.number (10 ^ exponent)]) =
      .joined ⟨state.total + count * 10 ^ exponent, 0, 0, 10 ^ exponent, true⟩ := by
  have counted := added.base_eq empty positive
  rw [read_append plain step, read_cons_scale room large (by rw [added.scale]; exact below)
    (by rw [added.total, counted]; exact fits), added.total, counted]
  rfl

/-- A scale word on its own counts once. -/
theorem read_scale_once {exponent : Nat} (room : capacity.HoldsBelow bound) (large : 3 ≤ exponent)
    (empty : state.current = 0) (below : state.scale = 0 ∨ 10 ^ exponent < state.scale)
    (fits : state.total + 10 ^ exponent < bound) :
    read capacity rule state [.number (10 ^ exponent)] =
      .joined ⟨state.total + 10 ^ exponent, 0, 0, 10 ^ exponent, true⟩ := by
  have once : state.base = 1 := if_pos empty
  rw [read_cons_scale room large below (by rw [once, Nat.one_mul]; exact fits), once, Nat.one_mul]
  rfl

/-- A state between two counts: only the total has been read, down to a scale. -/
structure Rests (state : Western) (total exponent : Nat) : Prop where
  total : state.total = total
  current : state.current = 0
  mask : state.mask = 0
  scale : state.scale = 0 ∨ 10 ^ exponent ≤ state.scale

theorem rests_initial (exponent : Nat) : Rests initial 0 exponent := ⟨rfl, rfl, rfl, .inl rfl⟩

namespace Rests

variable {total upper exponent : Nat}

theorem below (rests : Rests state total upper) (lower : exponent < upper) :
    state.scale = 0 ∨ 10 ^ exponent < state.scale :=
  rests.scale.imp_right (Nat.lt_of_lt_of_le (Nat.pow_lt_pow_right (by decide) lower))

/-- Nothing is counted at a scale that is left out. -/
theorem skip (rests : Rests state total upper) (lower : exponent < upper) :
    Rests state total exponent :=
  ⟨rests.total, rests.current, rests.mask, (rests.below lower).imp_right Nat.le_of_lt⟩

end Rests

/-- What a scale word leaves. -/
theorem rests_scaled (total exponent : Nat) :
    Rests ⟨total, 0, 0, 10 ^ exponent, true⟩ total exponent :=
  ⟨rfl, rfl, rfl, .inr (Nat.le_refl _)⟩

/-- A number neither starts nor ends with a linking word. -/
theorem plain_of_read {tokens : List Token} {final : Western}
    (joined : read capacity rule initial tokens = .joined final) :
    (∀ first ∈ tokens.head?, first.isConnector = false) ∧
      ∀ last ∈ tokens.getLast?, last.isConnector = false := by
  constructor
  · intro first starts
    obtain ⟨rest, rfl⟩ := List.head?_eq_some_iff.1 starts
    rw [← Bool.not_eq_true]
    intro linking
    have refused : push capacity rule initial first rest.head? = .refused := by
      simp [push, linking, initial]
    rw [read_cons, refused] at joined
    simp [Verdict.bind] at joined
  · intro last ends
    obtain ⟨front, rfl⟩ := List.getLast?_eq_some_iff.1 ends
    rw [← Bool.not_eq_true]
    intro linking
    -- Nothing comes after the last token that could keep the number open.
    have refused (state : Western) : push capacity rule state last none = .refused := by
      cases rule <;> simp [push, linking, ConnectorRule.admits]
    have split : read capacity rule initial (front ++ [last]) =
        ((grammar capacity rule).replayBefore (some last) initial front).bind fun next =>
          push capacity rule next last none :=
      Grammar.replay_concat (g := grammar capacity rule) initial front last
    obtain ⟨middle, -, step⟩ := Verdict.exists_of_bind_eq_joined (split.symm.trans joined)
    exact absurd ((refused middle).symm.trans step) (by simp)

/-- Words that all join one number are written as its digits. -/
theorem resolve_of_read {tokens : List Token} {final : Western} {n : Nat}
    (joined : read .word64 rule initial tokens = .joined final)
    (sum : final.total + final.current = n) (small : n < UInt64.size)
    (spoken : ∀ token ∈ tokens, token.kind ≠ .explicit) (nonempty : tokens ≠ [])
    (order : ReadingOrder) :
    (grammar .word64 rule).resolve order tokens = some (Nat.toDigits 10 n) := by
  have value : (grammar .word64 rule).value? final = some n := by
    rw [← sum] at small ⊢
    exact Capacity.holdsBelow_word64 _ small
  have starts := List.head?_eq_some_head nonempty
  have ends := List.getLast?_eq_some_getLast nonempty
  obtain ⟨begins, closes⟩ := plain_of_read joined
  exact Grammar.resolve_of_replay joined value spoken starts (begins _ starts) ends
    (closes _ ends) order

/-- Words that all join one number are that number, unless tens meet. -/
theorem evaluate_of_read {scheme : Scheme} {tokens : List Token} {final : Western} {n : Nat}
    (western : scheme.grammar .word64 = grammar .word64 rule)
    (strict : scheme.isAmbiguous tokens = Scheme.repeatsTen tokens)
    (joined : read .word64 rule initial tokens = .joined final)
    (sum : final.total + final.current = n) (small : n < UInt64.size)
    (spoken : ∀ token ∈ tokens, token.kind ≠ .explicit) (nonempty : tokens ≠ []) :
    scheme.evaluate .word64 tokens =
      if Scheme.repeatsTen tokens then none else some (Nat.toDigits 10 n) := by
  rw [Scheme.evaluate, strict, western, resolve_of_read joined sum small spoken nonempty]

/-- No words are read as zero. -/
theorem eq_zero_of_read_nil {n : Nat}
    (reads : ∃ final, read capacity rule initial [] = .joined final ∧
      final.total + final.current = n) : n = 0 := by
  obtain ⟨final, joined, sum⟩ := reads
  cases joined
  exact sum.symm

end Western

end Phrasebook.Numeral
