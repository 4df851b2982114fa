import Mathlib.Data.List.Chain
import Phrasebook.Proofs.WesternReading

/-! French numerals and their values.

A number below a hundred has one name, or a ten and a unit. A hundred is said
without a one before it, and so is a thousand; millions and milliards are always
counted. Read part by part it is one number, the one that it was made from.
-/

set_option autoImplicit false

namespace Phrasebook.Numeral.French

open Western

/-- The parts of a number below a hundred, each by its value. -/
def belowHundred (n : Nat) : List Nat :=
  if n = 0 then []
  else if 20 < n ∧ n < 70 ∧ 2 ≤ n % 10 then [n / 10 * 10, n % 10]
  else [n]

def hundreds (digit : Nat) : List Nat :=
  if digit = 0 then [] else if digit = 1 then [100] else [digit, 100]

def belowThousand (n : Nat) : List Nat := hundreds (n / 100) ++ belowHundred (n % 100)

/-- A count of thousands, millions or milliards. -/
def counted (count exponent : Nat) : List Nat :=
  if count = 0 then []
  else if count = 1 ∧ exponent = 3 then [10 ^ exponent]
  else belowThousand count ++ [10 ^ exponent]

/-- The parts of a number below 10^12. -/
def numeral (n : Nat) : List Nat :=
  if n = 0 then [0]
  else
    counted (n / 10 ^ 9) 9 ++ counted (n / 10 ^ 6 % 1000) 6 ++ counted (n / 10 ^ 3 % 1000) 3 ++
      belowThousand (n % 1000)

/-- Ten is said again within the next two parts. -/
def TensMeet (values : List Nat) : Prop :=
  ∃ first second, first < second ∧ second ≤ first + 2 ∧
    values[first]? = some 10 ∧ values[second]? = some 10

theorem repeatsTen_iff {values : List Nat} :
    Scheme.repeatsTen (values.map Token.number) = true ↔ TensMeet values :=
  Scheme.repeatsTen_map_iff fun value _ => by simp [Scheme.isTen, Token.number]

instance (values : List Nat) : Decidable (TensMeet values) := decidable_of_iff _ repeatsTen_iff

/-- Two parts that may stand side by side. -/
def Adjoins (first second : Nat) : Prop :=
  100 ≤ first ∨ 1000 ≤ second ∨ first < 10 ∧ second = 100 ∨
    20 ≤ first ∧ first < 70 ∧ 2 ≤ second ∧ second < 10

instance (first second : Nat) : Decidable (Adjoins first second) :=
  inferInstanceAs (Decidable (_ ∨ _ ∨ _ ∧ _ ∨ _ ∧ _ ∧ _ ∧ _))

theorem isChain_belowHundred {n : Nat} (small : n < 100) : (belowHundred n).IsChain Adjoins := by
  unfold belowHundred
  split
  · exact .nil
  · split
    · have side : Adjoins (n / 10 * 10) (n % 10) := by
        unfold Adjoins
        omega
      simpa using side
    · exact .singleton _

theorem isChain_hundreds {digit : Nat} (small : digit < 10) :
    (hundreds digit).IsChain Adjoins := by
  unfold hundreds
  split
  · exact .nil
  · split
    · exact .singleton _
    · simp [Adjoins, small]

theorem eq_of_mem_getLast?_hundreds {digit last : Nat} (ends : last ∈ (hundreds digit).getLast?) :
    last = 100 := by
  unfold hundreds at ends
  split at ends
  · simp at ends
  · split at ends <;> simpa using ends.symm

theorem isChain_belowThousand {n : Nat} (small : n < 1000) :
    (belowThousand n).IsChain Adjoins := by
  refine List.isChain_append.2 ⟨isChain_hundreds (by omega), isChain_belowHundred (by omega), ?_⟩
  intro last ends _ _
  rw [eq_of_mem_getLast?_hundreds ends]
  exact .inl (Nat.le_refl 100)

/-- After a count comes anything, and its scale comes after anything. -/
theorem isChain_counted {count exponent : Nat} {rest : List Nat} (large : 3 ≤ exponent)
    (small : count < 1000) (further : rest.IsChain Adjoins) :
    (counted count exponent ++ rest).IsChain Adjoins := by
  have scale : 10 ^ 3 ≤ 10 ^ exponent := Nat.pow_le_pow_right (by decide) large
  have onward : ([10 ^ exponent] ++ rest).IsChain Adjoins := by
    refine List.isChain_append.2 ⟨.singleton _, further, ?_⟩
    intro last ends _ _
    have same : 10 ^ exponent = last := by simpa using ends
    exact .inl (by omega)
  unfold counted
  split
  · exact further
  · split
    · exact onward
    · rw [List.append_assoc]
      refine List.isChain_append.2 ⟨isChain_belowThousand small, onward, ?_⟩
      rintro _ _ _ ⟨⟩
      exact .inr (.inl scale)

theorem isChain_numeral {n : Nat} (small : n < 10 ^ 12) : (numeral n).IsChain Adjoins := by
  unfold numeral
  split
  · exact .singleton _
  · rw [List.append_assoc, List.append_assoc]
    exact isChain_counted (by decide) (by omega) <| isChain_counted (by decide) (by omega) <|
      isChain_counted (by decide) (by omega) <| isChain_belowThousand (by omega)

variable {capacity : Capacity} {bound : Nat} {state : Western} (rule : ConnectorRule)

theorem exists_read_belowHundred {n : Nat} (room : capacity.HoldsBelow bound) (small : n < 100)
    (free : state.mask &&& 3 = 0) (fits : state.current + n < bound) :
    ∃ next, read capacity rule state ((belowHundred n).map Token.number) = .joined next ∧
      Adds state next n := by
  unfold belowHundred
  split
  · next zero => exact ⟨state, rfl, by rw [zero, Nat.add_zero], rfl, rfl⟩
  · split
    · exact exists_read_tens room (by omega) small (by omega) free fits
    · exact exists_read_word room small free fits

theorem read_hundreds_append {digit : Nat} (room : capacity.HoldsBelow bound) (positive : 0 < digit)
    (small : digit < 10) (fresh : state.current = 0 ∧ state.mask = 0) (fits : digit * 100 < bound)
    (rest : List Nat) :
    read capacity rule state ((hundreds digit ++ rest).map Token.number) =
      read capacity rule { state with current := digit * 100, mask := 4, started := true }
        (rest.map Token.number) := by
  unfold hundreds
  rw [if_neg (Nat.ne_of_gt positive), List.map_append]
  split
  · next one =>
    subst one
    exact read_append plain_of_mem_map (read_hundred room fresh fits) _
  · exact read_append plain_of_mem_map (read_hundreds room positive small fresh fits) _

theorem exists_read_belowThousand {n : Nat} (room : capacity.HoldsBelow bound) (small : n < 1000)
    (fresh : state.current = 0 ∧ state.mask = 0) (fits : n < bound) :
    ∃ next, read capacity rule state ((belowThousand n).map Token.number) = .joined next ∧
      Adds state next n := by
  unfold belowThousand
  by_cases zero : n / 100 = 0
  · have same : n % 100 = n := by omega
    rw [zero, same]
    exact exists_read_belowHundred rule room (by omega) (by rw [fresh.2]; rfl) (by omega)
  · rw [read_hundreds_append rule room (Nat.pos_of_ne_zero zero) (by omega) fresh (by omega)]
    have free : Western.mask { state with
        current := n / 100 * 100, mask := 4, started := true } &&& 3 = 0 := by
      show 4 &&& 3 = 0
      rfl
    obtain ⟨next, step, added⟩ := exists_read_belowHundred rule (n := n % 100) room (by omega) free
      (by simp only; omega)
    exact ⟨next, step, by rw [added.current, fresh.1]; simp only; omega, added.total, added.scale⟩

/-- A count and its scale go to the total. -/
theorem exists_read_counted {count upper exponent total : Nat} (room : capacity.HoldsBelow bound)
    (large : 3 ≤ exponent) (lower : exponent < upper) (small : count < 1000)
    (rests : Rests state total upper) (fits : total + count * 10 ^ exponent < bound)
    (rest : List Nat) :
    ∃ next, Rests next (total + count * 10 ^ exponent) exponent ∧
      read capacity rule state ((counted count exponent ++ rest).map Token.number) =
        read capacity rule next (rest.map Token.number) := by
  have below := rests.below lower
  unfold counted
  split
  · next zero =>
    refine ⟨state, ?_, rfl⟩
    rw [zero, Nat.zero_mul, Nat.add_zero]
    exact rests.skip lower
  · next nonzero =>
    refine ⟨_, rests_scaled _ exponent, ?_⟩
    obtain ⟨rfl, empty, free, -⟩ := rests
    rw [List.map_append]
    apply read_append plain_of_mem_map
    split
    · next one =>
      rw [one.1, Nat.one_mul] at fits ⊢
      exact read_scale_once room large empty below fits
    · have least : count * 1 ≤ count * 10 ^ exponent :=
        Nat.mul_le_mul_left count (Nat.pow_pos (by decide))
      obtain ⟨middle, step, added⟩ :=
        exists_read_belowThousand rule room small ⟨empty, free⟩ (by omega)
      rw [List.map_append]
      exact read_scaled room large (Nat.pos_of_ne_zero nonzero) empty below plain_of_mem_map step
        added fits

/-- A numeral is read as the number that it was made from. -/
theorem exists_read_numeral {n : Nat} (room : capacity.HoldsBelow bound) (small : n < 10 ^ 12)
    (fits : n < bound) :
    ∃ next, read capacity rule initial ((numeral n).map Token.number) = .joined next ∧
      next.total + next.current = n := by
  unfold numeral
  split
  · next zero =>
    subst zero
    have word : ∃ next, read capacity rule initial ([0].map Token.number) = .joined next ∧
        Adds initial next 0 :=
      exists_read_word room (by decide) rfl fits
    obtain ⟨next, step, added⟩ := word
    exact ⟨next, step, by rw [added.total, added.current]; rfl⟩
  · have fresh := rests_initial 10
    rw [List.append_assoc, List.append_assoc]
    obtain ⟨first, rests, milliards⟩ := exists_read_counted rule room (by decide)
      (by decide : 9 < 10) (show n / 10 ^ 9 < 1000 by omega) fresh (by omega)
      (counted (n / 10 ^ 6 % 1000) 6 ++ (counted (n / 10 ^ 3 % 1000) 3 ++ belowThousand (n % 1000)))
    obtain ⟨second, rests, millions⟩ := exists_read_counted rule room (by decide)
      (by decide : 6 < 9) (show n / 10 ^ 6 % 1000 < 1000 by omega) rests (by omega)
      (counted (n / 10 ^ 3 % 1000) 3 ++ belowThousand (n % 1000))
    obtain ⟨third, rests, thousands⟩ := exists_read_counted rule room (by decide)
      (by decide : 3 < 6) (show n / 10 ^ 3 % 1000 < 1000 by omega) rests (by omega)
      (belowThousand (n % 1000))
    obtain ⟨next, step, added⟩ := exists_read_belowThousand rule (n := n % 1000) room (by omega)
      ⟨rests.current, rests.mask⟩ (by omega)
    refine ⟨next, ?_, ?_⟩
    · rw [milliards, millions, thousands, step]
    · rw [added.total, added.current, rests.total, rests.current]
      omega

theorem numeral_ne_nil {n : Nat} (small : n < 10 ^ 12) : numeral n ≠ [] := by
  intro nothing
  have reads := exists_read_numeral .beforeNumber Capacity.holdsBelow_word64 small
    (Nat.lt_trans small (by decide))
  -- Only zero could be read from no parts, and it has one.
  rw [nothing] at reads
  simp [eq_zero_of_read_nil reads, numeral] at nothing

/-- The parts of a numeral are one number, unless tens meet. -/
theorem evaluate_numeral {n : Nat} (small : n < 10 ^ 12) :
    Scheme.french.evaluate .word64 ((numeral n).map Token.number) =
      if TensMeet (numeral n) then none else some (Nat.toDigits 10 n) := by
  have fits : n < UInt64.size := Nat.lt_trans small (by decide)
  obtain ⟨next, step, sum⟩ :=
    exists_read_numeral .beforeNumber Capacity.holdsBelow_word64 small fits
  have worded : ∀ token ∈ (numeral n).map Token.number, token.kind ≠ .explicit := by
    intro token member
    obtain ⟨value, -, rfl⟩ := List.mem_map.1 member
    simp [Token.number]
  have nonempty : (numeral n).map Token.number ≠ [] := by simp [numeral_ne_nil small]
  rw [evaluate_of_read rfl rfl step sum fits worded nonempty]
  simp only [repeatsTen_iff]

end Phrasebook.Numeral.French
