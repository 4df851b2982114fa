import Phrasebook.Proofs.WesternReading

/-! English numerals and their values.

A numeral below 10^15 has a section of at most three digits for each power of a
thousand. Read word by word it is one number, the one that it was made from, and
so it is with linking words after hundreds and scale words.
-/

set_option autoImplicit false

namespace Phrasebook.Numeral

namespace English

/-- The words of a number below a hundred, each by its value. -/
def belowHundred (n : Nat) : List Nat :=
  if n = 0 then [] else if n < 20 ∨ n % 10 = 0 then [n] else [n / 10 * 10, n % 10]

def belowThousand (n : Nat) : List Nat :=
  (if n / 100 = 0 then [] else [n / 100, 100]) ++ belowHundred (n % 100)

/-- The sections of a number from a power of a thousand down. Empty sections are
left out with their scale words. -/
def sections : Nat → Nat → List Nat
  | 0, n => belowThousand n
  | power + 1, n =>
    (if n / 1000 ^ (power + 1) = 0 then []
      else belowThousand (n / 1000 ^ (power + 1)) ++ [1000 ^ (power + 1)]) ++
      sections power (n % 1000 ^ (power + 1))

/-- The words of a number below 10^15. -/
def numeral (n : Nat) : List Nat := if n = 0 then [0] else sections 4 n

/-- A word of a numeral as it is said. -/
inductive Spoken where
  | number (value : Nat)
  | link
  deriving Repr, DecidableEq

def Spoken.token : Spoken → Token
  | number value => .number value
  | link => .connector

/-- Linking words may follow hundreds and scale words, if another word comes. -/
inductive Linked : List Nat → List Spoken → Prop where
  | nil : Linked [] []
  | word (value : Nat) {rest : List Nat} {spoken : List Spoken} : Linked rest spoken →
      Linked (value :: rest) (.number value :: spoken)
  | link {value : Nat} {rest : List Nat} {spoken : List Spoken} : 100 ≤ value → rest ≠ [] →
      Linked rest spoken → Linked (value :: rest) (.number value :: .link :: spoken)

namespace Linked

variable {values : List Nat} {spoken : List Spoken}

theorem head?_eq (linked : Linked values spoken) :
    spoken.head? = values.head?.map Spoken.number := by
  cases linked <;> rfl

end Linked

end English

namespace Western

open English

variable {capacity : Capacity} {bound : Nat} {state : Western}

/-- Linking words change nothing of what is read. -/
theorem read_linked {values : List Nat} {spoken : List Spoken} (linked : Linked values spoken)
    (state : Western) :
    read capacity .beforeNumber state (spoken.map Spoken.token) =
      read capacity .beforeNumber state (values.map Token.number) := by
  induction linked generalizing state with
  | nil => rfl
  | word value _ ih =>
    rw [List.map_cons, List.map_cons, Spoken.token, read_cons, read_cons,
      push_eq_of_number state rfl _ none, push_eq_of_number state rfl (List.head? _) none]
    congr 1
    funext next
    exact ih next
  | @link value rest spoken _ further linked ih =>
    rw [List.map_cons, List.map_cons, List.map_cons, Spoken.token, read_cons, read_cons,
      push_eq_of_number state rfl _ none, push_eq_of_number state rfl (List.head? _) none]
    cases step : push capacity .beforeNumber state (.number value) none with
    | refused | overflow => rfl
    | joined next =>
      -- The number has been started, and another word comes after the link.
      obtain ⟨first, others, rfl⟩ := List.exists_cons_of_ne_nil further
      have ahead : (spoken.map Spoken.token).head? = some (.number first) := by
        rw [List.head?_map, linked.head?_eq]
        rfl
      simp only [Verdict.bind]
      rw [Spoken.token, read_cons, ahead, push_connector (started_of_push rfl step) rfl]
      exact ih next

variable (rule : ConnectorRule)

theorem exists_read_belowHundred {n : Nat} (room : capacity.HoldsBelow bound) (small : n < 100)
    (free : state.mask &&& 3 = 0) (fits : state.current + n < bound) :
    ∃ next, read capacity rule state ((belowHundred n).map Token.number) = .joined next ∧
      Adds state next n := by
  unfold belowHundred
  split
  · next zero => exact ⟨state, rfl, by rw [zero, Nat.add_zero], rfl, rfl⟩
  · split
    · exact exists_read_word room small free fits
    · exact exists_read_tens room (by omega) small (by omega) free fits

theorem exists_read_belowThousand {n : Nat} (room : capacity.HoldsBelow bound) (small : n < 1000)
    (fresh : state.current = 0 ∧ state.mask = 0) (fits : n < bound) :
    ∃ next, read capacity rule state ((belowThousand n).map Token.number) = .joined next ∧
      Adds state next n := by
  unfold belowThousand
  split
  · next zero =>
    have same : n % 100 = n := by omega
    rw [List.nil_append, same]
    exact exists_read_belowHundred rule room (by omega) (by rw [fresh.2]; rfl) (by omega)
  · next hundreds =>
    rw [List.map_append, read_append plain_of_mem_map (read_hundreds room
      (Nat.pos_of_ne_zero hundreds) (by omega) fresh (by omega))]
    have free : Western.mask { state with
        current := n / 100 * 100, mask := 4, started := true } &&& 3 = 0 := by
      show 4 &&& 3 = 0
      rfl
    obtain ⟨next, further, added⟩ := exists_read_belowHundred rule (n := n % 100) room (by omega)
      free (by simp only; omega)
    exact ⟨next, further, by rw [added.current, fresh.1]; simp only; omega, added.total,
      added.scale⟩

/-- A section and its scale word go to the total. -/
theorem read_section {power count : Nat} (room : capacity.HoldsBelow bound)
    (positive : 0 < count) (small : count < 1000) (fresh : state.current = 0 ∧ state.mask = 0)
    (below : state.scale = 0 ∨ 1000 ^ (power + 1) < state.scale)
    (fits : state.total + count * 1000 ^ (power + 1) < bound) :
    read capacity rule state ((belowThousand count ++ [1000 ^ (power + 1)]).map Token.number) =
      .joined ⟨state.total + count * 1000 ^ (power + 1), 0, 0, 1000 ^ (power + 1), true⟩ := by
  have thousands : 1000 ^ (power + 1) = 10 ^ (3 * (power + 1)) := by rw [Nat.pow_mul]
  have least : count * 1 ≤ count * 1000 ^ (power + 1) :=
    Nat.mul_le_mul_left count (Nat.pow_pos (by decide))
  obtain ⟨middle, step, added⟩ := exists_read_belowThousand rule room small fresh (by omega)
  rw [thousands] at below fits ⊢
  rw [List.map_append]
  exact read_scaled room (by omega) positive fresh.1 below plain_of_mem_map step added fits

/-- Sections add up to the number. -/
theorem exists_read_sections {power n : Nat} (room : capacity.HoldsBelow bound)
    (small : n < 1000 ^ (power + 1)) (fresh : state.current = 0 ∧ state.mask = 0)
    (below : state.scale = 0 ∨ 1000 ^ power < state.scale) (fits : state.total + n < bound) :
    ∃ next, read capacity rule state ((sections power n).map Token.number) = .joined next ∧
      next.total + next.current = state.total + n := by
  -- The section in reading is empty, and the last scale is above all that come.
  induction power generalizing n state with
  | zero =>
    obtain ⟨next, step, added⟩ := exists_read_belowThousand rule room small fresh (by omega)
    exact ⟨next, step, by rw [added.total, added.current, fresh.1, Nat.zero_add]⟩
  | succ power ih =>
    have split := Nat.div_add_mod' n (1000 ^ (power + 1))
    have less : n % 1000 ^ (power + 1) < 1000 ^ (power + 1) :=
      Nat.mod_lt n (Nat.pow_pos (by decide))
    have smaller : 1000 ^ power < 1000 ^ (power + 1) := Nat.pow_lt_pow_right (by decide) (by omega)
    rw [sections]
    split
    · next zero =>
      rw [zero, Nat.zero_mul, Nat.zero_add] at split
      rw [split] at less ⊢
      rw [List.nil_append]
      exact ih less fresh (by omega) fits
    · next nonempty =>
      have count : n / 1000 ^ (power + 1) < 1000 :=
        Nat.div_lt_of_lt_mul (by rwa [← Nat.pow_succ])
      rw [List.map_append, read_append plain_of_mem_map (read_section rule room
        (Nat.pos_of_ne_zero nonempty) count fresh below (by omega))]
      generalize n / 1000 ^ (power + 1) * 1000 ^ (power + 1) = high at split ⊢
      have empty : Western.current ⟨state.total + high, 0, 0, 1000 ^ (power + 1), true⟩ = 0 ∧
          Western.mask ⟨state.total + high, 0, 0, 1000 ^ (power + 1), true⟩ = 0 := ⟨rfl, rfl⟩
      obtain ⟨next, further, sum⟩ := ih less empty (.inr smaller) (by simp only; omega)
      exact ⟨next, further, by simp only at sum; omega⟩

/-- A numeral is read as the number that it was made from. -/
theorem exists_read_numeral {n : Nat} (room : capacity.HoldsBelow bound) (small : n < 1000 ^ 5)
    (fits : n < bound) :
    ∃ next, read capacity rule initial ((numeral n).map Token.number) = .joined next ∧
      next.total + next.current = n := by
  unfold numeral
  split
  · next zero =>
    have plain : isMultiplier (.number 0) = false := isMultiplier_of_lt (by decide)
    have within : initial.current + 0 < bound := by
      rw [← zero]
      exact (Nat.zero_add n).symm ▸ fits
    rw [List.map_singleton, read_cons_add room plain (Nat.zero_and _) within]
    exact ⟨_, rfl, by rw [zero]; rfl⟩
  · have fresh : initial.current = 0 ∧ initial.mask = 0 := ⟨rfl, rfl⟩
    have whole : initial.total + n = n := Nat.zero_add n
    obtain ⟨next, step, sum⟩ := exists_read_sections rule room small fresh (.inl rfl)
      (by rw [whole]; exact fits)
    exact ⟨next, step, sum.trans whole⟩

end Western

namespace English

/-- The word for ten is said again within the next two words. -/
def TensMeet (spoken : List Spoken) : Prop :=
  ∃ first second, first < second ∧ second ≤ first + 2 ∧
    spoken[first]? = some (.number 10) ∧ spoken[second]? = some (.number 10)

variable {spoken : List Spoken}

theorem isTen_token {word : Spoken} : Scheme.isTen word.token = true ↔ word = .number 10 := by
  cases word with
  | number value => simp [Scheme.isTen, Spoken.token, Token.number]
  | link => simp [Scheme.isTen, Spoken.token, Token.connector]

theorem repeatsTen_token_iff :
    Scheme.repeatsTen (spoken.map Spoken.token) = true ↔ TensMeet spoken :=
  Scheme.repeatsTen_map_iff fun _ _ => isTen_token

instance : Decidable (TensMeet spoken) := decidable_of_iff _ repeatsTen_token_iff

theorem numeral_ne_nil (n : Nat) (small : n < 1000 ^ 5) : numeral n ≠ [] := by
  intro nothing
  have reads := Western.exists_read_numeral .beforeNumber Capacity.holdsBelow_word64 small
    (Nat.lt_trans small (by decide))
  -- Only zero could be read from no words, and it has a word.
  rw [nothing] at reads
  simp [Western.eq_zero_of_read_nil reads, numeral] at nothing

/-- Spoken words of a numeral are one number, unless tens meet. -/
theorem evaluate_token {n : Nat} (small : n < 1000 ^ 5) (linked : Linked (numeral n) spoken) :
    Scheme.english.evaluate .word64 (spoken.map Spoken.token) =
      if Scheme.repeatsTen (spoken.map Spoken.token) then none else some (Nat.toDigits 10 n) := by
  have fits : n < UInt64.size := Nat.lt_trans small (by decide)
  obtain ⟨next, step, sum⟩ := Western.exists_read_numeral .beforeNumber
    Capacity.holdsBelow_word64 small fits
  rw [← Western.read_linked linked] at step
  have nonempty : spoken.map Spoken.token ≠ [] := by
    intro nothing
    have none : spoken.head? = Option.none := by simp [List.map_eq_nil_iff.1 nothing]
    rw [linked.head?_eq, Option.map_eq_none_iff, List.head?_eq_none_iff] at none
    exact numeral_ne_nil n small none
  have worded : ∀ token ∈ spoken.map Spoken.token, token.kind ≠ .explicit := by
    intro token member
    obtain ⟨word, -, rfl⟩ := List.mem_map.1 member
    cases word <;> simp [Spoken.token, Token.number, Token.connector]
  exact Western.evaluate_of_read rfl rfl step sum fits worded nonempty

end English

end Phrasebook.Numeral
