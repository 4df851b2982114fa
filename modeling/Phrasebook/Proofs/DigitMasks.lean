import Phrasebook.Proofs.DigitPlaces

/-! The mask of a number word, digit by digit.

A bit of the mask says that there is a digit other than zero at its place. Where the masks of
two values have no bit in common, adding the values carries nothing, and the mask of the sum is
the union of both. The mask of a 64-bit value is what a loop over its digits sets in a 32-bit
word.
-/

set_option autoImplicit false

namespace Phrasebook.Numeral

section

variable {first second : Nat} (nonzero : first ≠ 0) (nonzero' : second ≠ 0)
  (apart : digitMask first &&& digitMask second = 0)

include nonzero nonzero' apart

theorem add_digit_of_apart (place : Nat) :
    (first + second) / 10 ^ place % 10 = first / 10 ^ place % 10 + second / 10 ^ place % 10 :=
  (supplies_digitMask nonzero).add_digit (supplies_digitMask nonzero') apart place

theorem digitMask_add_of_apart :
    digitMask (first + second) = digitMask first ||| digitMask second := by
  refine Nat.eq_of_testBit_eq fun place => Bool.eq_iff_iff.2 ?_
  rw [Nat.testBit_or, Bool.or_eq_true, testBit_digitMask nonzero, testBit_digitMask nonzero',
    testBit_digitMask (by omega), add_digit_of_apart nonzero nonzero' apart]
  omega

end

/-- The highest digit is not zero. -/
theorem digit_position_ne_zero {value : Nat} (nonzero : value ≠ 0) :
    value / 10 ^ position value % 10 ≠ 0 := by
  induction value using position.induct with
  | case1 value single =>
    rwa [position, if_pos single, Nat.pow_zero, Nat.div_one, Nat.mod_eq_of_lt single]
  | case2 value several ih =>
    rw [position, if_neg several, Nat.pow_succ', ← Nat.div_div_eq_div_mul]
    exact ih (by omega)

theorem position_lt {value count : Nat} (nonzero : value ≠ 0) (less : value < 10 ^ count) :
    position value < count := by
  by_contra high
  have least : 10 ^ count ≤ 10 ^ position value :=
    Nat.pow_le_pow_right (by decide) (Nat.le_of_not_lt high)
  apply digit_position_ne_zero nonzero
  rw [Nat.div_eq_of_lt (Nat.lt_of_lt_of_le less least), Nat.zero_mod]

/-! The mask in a 32-bit word. -/

theorem toNat_ne_zero {rest : UInt64} (nonzero : rest ≠ 0) : rest.toNat ≠ 0 :=
  fun zero => nonzero (UInt64.toNat_inj.1 zero)

/-- Set the bit of a place unless the last digit of `rest` is zero. -/
def setPlace (mask : UInt32) (rest : UInt64) (place : UInt32) : UInt32 :=
  if rest % 10 = 0 then mask else mask ||| 1 <<< place

/-- Set the bits of all digits of `rest`, of which the last one stands at `place`. -/
def setPlaces (mask : UInt32) (rest : UInt64) (place : UInt32) : UInt32 :=
  if rest = 0 then mask else setPlaces (setPlace mask rest place) (rest / 10) (place + 1)
termination_by rest.toNat
decreasing_by
  next nonzero =>
  rw [UInt64.toNat_div]
  exact Nat.div_lt_self (Nat.pos_of_ne_zero (toNat_ne_zero nonzero)) (by decide)

/-- The mask of a number word, set from the place of its highest digit and then from the units
up. -/
def wordMask (value : UInt64) : UInt32 :=
  if value = 0 then 1 else setPlaces (1 <<< (position value.toNat).toUInt32) value 0

section

variable {mask place : UInt32} {rest : UInt64}

theorem testBit_one_shiftLeft (low : place.toNat < 32) (other : Nat) :
    (1 <<< place : UInt32).toNat.testBit other = true ↔ place.toNat = other := by
  have bound : 2 ^ place.toNat < 2 ^ 32 := Nat.pow_lt_pow_right (by decide) low
  have power : (1 <<< place : UInt32).toNat = 2 ^ place.toNat := by
    rw [UInt32.toNat_shiftLeft, Nat.mod_eq_of_lt low, UInt32.toNat_one, Nat.one_shiftLeft,
      Nat.mod_eq_of_lt bound]
  rw [power, Nat.testBit_two_pow, decide_eq_true_iff]

theorem testBit_setPlace (low : place.toNat < 32) (other : Nat) :
    (setPlace mask rest place).toNat.testBit other = true ↔
      mask.toNat.testBit other = true ∨ place.toNat = other ∧ rest.toNat % 10 ≠ 0 := by
  have units : rest % 10 = 0 ↔ rest.toNat % 10 = 0 := by
    rw [← UInt64.toNat_inj, UInt64.toNat_mod]
    rfl
  unfold setPlace
  split
  · next zero => simp [units.1 zero]
  · next digit =>
    rw [UInt32.toNat_or, Nat.testBit_or, Bool.or_eq_true, testBit_one_shiftLeft low]
    simp [mt units.2 digit]

/-- As long as the word has room for the digits that are left, each of them sets its own bit. -/
theorem testBit_setPlaces (room : rest.toNat < 10 ^ (32 - place.toNat)) (other : Nat) :
    (setPlaces mask rest place).toNat.testBit other = true ↔
      mask.toNat.testBit other = true ∨
        place.toNat ≤ other ∧ rest.toNat / 10 ^ (other - place.toNat) % 10 ≠ 0 := by
  induction mask, rest, place using setPlaces.induct with
  | case1 mask place =>
    rw [setPlaces, if_pos rfl]
    simp
  | case2 mask rest place nonzero ih =>
    have positive : rest.toNat ≠ 0 := toNat_ne_zero nonzero
    -- There is no room beyond the word, and a digit is left.
    have low : place.toNat < 32 := by
      by_contra high
      rw [Nat.sub_eq_zero_of_le (Nat.le_of_not_lt high)] at room
      omega
    have next : (place + 1).toNat = place.toNat + 1 := by
      rw [UInt32.toNat_add, UInt32.toNat_one, Nat.mod_eq_of_lt (by omega)]
    have tens : (rest / 10).toNat = rest.toNat / 10 := UInt64.toNat_div rest 10
    have less : (rest / 10).toNat < 10 ^ (32 - (place + 1).toNat) := by
      rw [show 32 - place.toNat = 32 - (place.toNat + 1) + 1 by omega, Nat.pow_succ] at room
      rw [next, tens]
      omega
    rw [setPlaces, if_neg nonzero, ih less, testBit_setPlace low, next, tens, or_assoc]
    refine or_congr_right ?_
    -- The bit is below the place of the last digit, at it, or left to the rest of the loop.
    rcases Nat.lt_trichotomy other place.toNat with below | here | above
    · omega
    · rw [← here, Nat.sub_self, Nat.pow_zero, Nat.div_one]
      omega
    · obtain ⟨higher, rfl⟩ := Nat.exists_eq_add_of_lt above
      rw [show place.toNat + higher + 1 - place.toNat = higher + 1 by omega,
        show place.toNat + higher + 1 - (place.toNat + 1) = higher by omega,
        Nat.div_div_eq_div_mul, Nat.pow_succ']
      omega

end

/-- The word holds the whole mask. The bit that the loop starts from is that of a digit. -/
theorem toNat_wordMask (value : UInt64) : (wordMask value).toNat = digitMask value.toNat := by
  unfold wordMask
  split
  · next zero =>
    subst zero
    rfl
  · next nonzero =>
    have positive : value.toNat ≠ 0 := toNat_ne_zero nonzero
    have room : value.toNat < 10 ^ 20 := Nat.lt_trans value.toNat_lt (by decide)
    have low : position value.toNat < 20 := position_lt positive room
    have start : (position value.toNat).toUInt32.toNat = position value.toNat :=
      Nat.mod_eq_of_lt (Nat.lt_trans low (by decide))
    refine Nat.eq_of_testBit_eq fun place => Bool.eq_iff_iff.2 ?_
    rw [testBit_setPlaces (Nat.lt_trans room (by decide)), testBit_one_shiftLeft (by omega),
      start, testBit_digitMask positive]
    constructor
    · rintro (rfl | ⟨-, digit⟩)
      · exact digit_position_ne_zero positive
      · exact digit
    · exact fun digit => .inr ⟨Nat.zero_le _, digit⟩

/-- The mask of a value describes its decimal digits, and that of a 64-bit value is what the loop
sets. Where two masks have no bit in common, the values are added digit by digit. -/
theorem digitMask_digits_and_sums :
    (∀ value : UInt64, (wordMask value).toNat = digitMask value.toNat) ∧
    (∀ value ≠ 0, ∀ place,
      (digitMask value).testBit place = true ↔ value / 10 ^ place % 10 ≠ 0) ∧
    ∀ first ≠ 0, ∀ second ≠ 0, digitMask first &&& digitMask second = 0 →
      digitMask (first + second) = digitMask first ||| digitMask second ∧
      ∀ place, (first + second) / 10 ^ place % 10 =
        first / 10 ^ place % 10 + second / 10 ^ place % 10 :=
  ⟨toNat_wordMask, fun _ nonzero => testBit_digitMask nonzero,
    fun _ nonzero _ nonzero' apart =>
      ⟨digitMask_add_of_apart nonzero nonzero' apart, add_digit_of_apart nonzero nonzero' apart⟩⟩

/-- The two highest digits of the largest 64-bit value beside all others, of which two are zero. -/
theorem digitMask_of_largest :
    18000000000000000000 + 446744073709551615 + 1 = UInt64.size ∧
    18000000000000000000 ≠ 0 ∧ 446744073709551615 ≠ 0 ∧
    digitMask 18000000000000000000 &&& digitMask 446744073709551615 = 0 ∧
    (∀ place, (digitMask 446744073709551615).testBit place = true ↔
      446744073709551615 / 10 ^ place % 10 ≠ 0) ∧
    digitMask (18000000000000000000 + 446744073709551615) =
      digitMask 18000000000000000000 ||| digitMask 446744073709551615 ∧
    ∀ place, (18000000000000000000 + 446744073709551615) / 10 ^ place % 10 =
      18000000000000000000 / 10 ^ place % 10 + 446744073709551615 / 10 ^ place % 10 :=
  have apart : digitMask 18000000000000000000 &&& digitMask 446744073709551615 = 0 := by
    decide +kernel
  ⟨by decide, by decide, by decide, apart, digitMask_digits_and_sums.2.1 _ (by decide),
    digitMask_digits_and_sums.2.2 _ (by decide) _ (by decide) apart⟩

end Phrasebook.Numeral
