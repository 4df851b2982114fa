import Mathlib.Data.Nat.Bitwise
import Phrasebook.Proofs.Overflow
import Phrasebook.Proofs.SeparateTokens

/-! Which decimal places the tokens of a text supply.

The digits of a token stand at places of its mask. Where two masks have no place in common,
nothing is carried when the values are added: the digits of the sum stand at the places of
both.
-/

set_option autoImplicit false

namespace Phrasebook.Numeral

/-- The digits of a value that are not zero stand at places of a mask. -/
def Supplies (mask value : Nat) : Prop :=
  ∀ place, value / 10 ^ place % 10 ≠ 0 → mask.testBit place = true

theorem supplies_iff {mask value : Nat} :
    Supplies mask value ↔ (value % 10 ≠ 0 → mask % 2 = 1) ∧ Supplies (mask / 2) (value / 10) := by
  constructor
  · intro supplies
    refine ⟨fun digit => by simpa using supplies 0 (by simpa using digit), fun place digit => ?_⟩
    rw [← Nat.testBit_succ]
    refine supplies (place + 1) ?_
    rwa [Nat.pow_succ', ← Nat.div_div_eq_div_mul]
  · rintro ⟨first, others⟩ place digit
    cases place with
    | zero => simpa using first (by simpa using digit)
    | succ place =>
      rw [Nat.testBit_succ]
      refine others place ?_
      rwa [Nat.pow_succ', ← Nat.div_div_eq_div_mul] at digit

theorem supplies_zero (mask : Nat) : Supplies mask 0 := fun place digit => by simp at digit

/-- Without places there is no digit. -/
theorem Supplies.eq_zero {value : Nat} (supplies : Supplies 0 value) : value = 0 := by
  induction value using Nat.strongRecOn with
  | _ value ih =>
    by_cases zero : value = 0
    · exact zero
    · obtain ⟨first, others⟩ := supplies_iff.1 supplies
      have := ih (value / 10) (by omega) others
      omega

/-- Below the places of a mask there is room for its value. -/
theorem Supplies.lt {mask value count : Nat} (supplies : Supplies mask value)
    (bound : mask < 2 ^ count) : value < 10 ^ count := by
  induction count generalizing mask value with
  | zero =>
    obtain rfl : mask = 0 := by omega
    rw [supplies.eq_zero]
    exact Nat.one_pos
  | succ count ih =>
    have := ih (supplies_iff.1 supplies).2 (by rw [Nat.pow_succ] at bound; omega)
    rw [Nat.pow_succ]
    omega

/-- A value has room in as many places as it has digits. -/
theorem supplies_of_lt {value count : Nat} (less : value < 10 ^ count) :
    Supplies (2 ^ count - 1) value := by
  induction count generalizing value with
  | zero =>
    obtain rfl : value = 0 := by simpa using less
    exact supplies_zero _
  | succ count ih =>
    have power : 0 < 2 ^ count := Nat.two_pow_pos count
    rw [Nat.pow_succ] at less
    rw [supplies_iff, show (2 ^ (count + 1) - 1) / 2 = 2 ^ count - 1 by rw [Nat.pow_succ]; omega]
    exact ⟨fun _ => by rw [Nat.pow_succ]; omega, ih (by omega)⟩

/-- Of two masks that have no place in common at most one supplies the units. -/
theorem units_apart {mask other : Nat} (apart : mask &&& other = 0) :
    mask % 2 = 0 ∨ other % 2 = 0 := by
  have both : ¬((mask &&& other) % 2 = 1) := by simp [apart]
  rw [Nat.and_mod_two_eq_one] at both
  omega

theorem Supplies.units_eq_zero {mask other first second : Nat} (supplies : Supplies mask first)
    (also : Supplies other second) (apart : mask &&& other = 0) :
    first % 10 = 0 ∨ second % 10 = 0 := by
  have units := units_apart apart
  have digit := (supplies_iff.1 supplies).1
  have digit' := (supplies_iff.1 also).1
  omega

theorem Supplies.add_div_ten {mask other first second : Nat} (supplies : Supplies mask first)
    (also : Supplies other second) (apart : mask &&& other = 0) :
    (first + second) / 10 = first / 10 + second / 10 := by
  have units := supplies.units_eq_zero also apart
  omega

/-- Nothing is carried where the masks have no place in common. -/
theorem Supplies.add {mask other first second : Nat} (supplies : Supplies mask first)
    (also : Supplies other second) (apart : mask &&& other = 0) :
    Supplies (mask ||| other) (first + second) := by
  induction total : first + second using Nat.strongRecOn generalizing mask other first second with
  | _ sum ih =>
    subst total
    obtain ⟨digit, more⟩ := supplies_iff.1 supplies
    obtain ⟨digit', more'⟩ := supplies_iff.1 also
    have units := units_apart apart
    by_cases zero : first + second = 0
    · rw [zero]
      exact supplies_zero _
    · rw [supplies_iff, Nat.or_div_two, supplies.add_div_ten also apart, Nat.or_mod_two_eq_one]
      refine ⟨by omega, ih _ (by omega) more more' ?_ rfl⟩
      rw [← Nat.and_div_two, apart]

/-- So the digits of the sum are the sums of the digits. -/
theorem Supplies.add_digit {mask other first second : Nat} (supplies : Supplies mask first)
    (also : Supplies other second) (apart : mask &&& other = 0) (place : Nat) :
    (first + second) / 10 ^ place % 10 = first / 10 ^ place % 10 + second / 10 ^ place % 10 := by
  induction place generalizing mask other first second with
  | zero =>
    have units := supplies.units_eq_zero also apart
    rw [Nat.pow_zero, Nat.div_one, Nat.div_one, Nat.div_one]
    omega
  | succ place ih =>
    have above : mask / 2 &&& other / 2 = 0 := by rw [← Nat.and_div_two, apart]
    simp only [Nat.pow_succ', ← Nat.div_div_eq_div_mul, supplies.add_div_ten also apart]
    exact ih (supplies_iff.1 supplies).2 (supplies_iff.1 also).2 above

/-- A single digit at its place. -/
theorem supplies_mul_pow {digit : Nat} (small : digit < 10) (place : Nat) :
    Supplies (2 ^ place) (digit * 10 ^ place) := by
  induction place with
  | zero =>
    have units : Supplies (2 ^ 1 - 1) digit := supplies_of_lt small
    simpa using units
  | succ place ih =>
    rw [supplies_iff, Nat.pow_succ, Nat.pow_succ, ← Nat.mul_assoc, Nat.mul_div_cancel _ (by decide),
      Nat.mul_div_cancel _ (by decide)]
    exact ⟨fun digit => absurd (Nat.mul_mod_left _ _) digit, ih⟩

/-- The places that a number word supplies are those of its digits other than zero. -/
theorem testBit_nonzeroPositions (value place : Nat) :
    (nonzeroPositions value).testBit place = true ↔ value / 10 ^ place % 10 ≠ 0 := by
  induction place generalizing value with
  | zero =>
    rw [nonzeroPositions]
    split
    · simp_all
    · split <;> simp_all [Nat.testBit_zero]
  | succ place ih =>
    rw [Nat.testBit_succ, Nat.pow_succ', ← Nat.div_div_eq_div_mul, ← ih]
    have half : nonzeroPositions value / 2 = nonzeroPositions (value / 10) := by
      rw [nonzeroPositions]
      split
      · next zero => rw [zero, nonzeroPositions, if_pos rfl]
      · split <;> omega
    rw [half]

theorem testBit_digitMask {value : Nat} (nonzero : value ≠ 0) (place : Nat) :
    (digitMask value).testBit place = true ↔ value / 10 ^ place % 10 ≠ 0 := by
  rw [digitMask, if_neg nonzero, testBit_nonzeroPositions]

theorem supplies_digitMask {value : Nat} (nonzero : value ≠ 0) :
    Supplies (digitMask value) value :=
  fun place => (testBit_digitMask nonzero place).2

namespace Token

/-- A token whose digits stand at places of its mask. The places are those of its digits other
than zero, or all places from the units up to some place. -/
structure HasPlaces (token : Token) : Prop where
  supplies : Supplies token.mask token.value
  occupied : token.mask ≠ 0
  exact : (∀ place, token.mask.testBit place = true → token.value / 10 ^ place % 10 ≠ 0) ∨
    ∃ count, token.mask = 2 ^ (count + 1) - 1

theorem hasPlaces_number (value : Nat) : (number value).HasPlaces := by
  by_cases zero : value = 0
  · subst zero
    exact ⟨supplies_zero _, by decide, .inr ⟨0, rfl⟩⟩
  · have supplies : Supplies (number value).mask value := supplies_digitMask zero
    refine ⟨supplies, fun none => zero ?_, .inl fun place => (testBit_digitMask zero place).1⟩
    rw [none] at supplies
    exact supplies.eq_zero

theorem eq_written_of_explicit? {text : List Char} {token : Token}
    (found : explicit? text = some token) :
    text ≠ [] ∧ text.all isDigit = true ∧ token = written text := by
  obtain ⟨nonempty, -, digits, -, same⟩ := explicit?_eq_some_iff.1 found
  exact ⟨nonempty, digits, same⟩

theorem hasPlaces_written {text : List Char} (nonempty : text ≠ [])
    (digits : text.all isDigit = true) : (written text).HasPlaces := by
  obtain ⟨count, length⟩ := Nat.exists_eq_add_of_le' (List.length_pos_iff.2 nonempty)
  have mask : (written text).mask = 2 ^ (count + 1) - 1 := by
    rw [written, Nat.one_shiftLeft, length]
  have supplies := supplies_of_lt (Western.decimalValue_lt digits)
  rw [length, ← mask] at supplies
  have power : 0 < 2 ^ count := Nat.two_pow_pos count
  exact ⟨supplies, by rw [mask, Nat.pow_succ]; omega, .inr ⟨count, mask⟩⟩

namespace HasPlaces

variable {first second : Token}

/-- A token without value supplies the units. -/
theorem units_of_eq_zero (places : first.HasPlaces) (zero : first.value = 0) :
    first.mask % 2 = 1 := by
  rcases places.exact with exact | ⟨count, mask⟩
  · obtain ⟨place, supplied⟩ := Nat.exists_testBit_of_ne_zero places.occupied
    exact absurd (by simp [zero]) (exact place supplied)
  · rw [mask, Nat.pow_succ]
    have := Nat.two_pow_pos count
    omega

/-- Of two tokens that have no place in common, the one with the lower places is worth less. -/
theorem value_lt (places : first.HasPlaces) (also : second.HasPlaces)
    (apart : first.mask &&& second.mask = 0) (lower : first.mask < second.mask) :
    first.value < second.value := by
  -- The highest place of the second is above all places of the first.
  have top := Nat.testBit_log2 also.occupied
  have below : first.mask < 2 ^ second.mask.log2 := by
    by_contra high
    have same : first.mask.log2 = second.mask.log2 :=
      (Nat.log2_eq_iff places.occupied).2
        ⟨Nat.le_of_not_lt high, Nat.lt_trans lower (Nat.lt_log2_self ..)⟩
    have both := congrArg (Nat.testBit · second.mask.log2) apart
    have supplied := Nat.testBit_log2 places.occupied
    rw [same] at supplied
    simp [top, supplied] at both
  rcases also.exact with exact | ⟨count, mask⟩
  · have digit := exact _ top
    have least : 10 ^ second.mask.log2 ≤ second.value := by
      by_contra small
      rw [Nat.div_eq_of_lt (Nat.lt_of_not_le small)] at digit
      exact digit rfl
    exact Nat.lt_of_lt_of_le (places.supplies.lt below) least
  · -- Nothing is apart from the places of the second and yet below them.
    rw [mask] at apart lower
    rw [Nat.and_two_pow_sub_one_eq_mod, Nat.mod_eq_of_lt (by omega)] at apart
    exact absurd apart places.occupied

theorem value_lt_iff (places : first.HasPlaces) (also : second.HasPlaces)
    (apart : first.mask &&& second.mask = 0) :
    first.value < second.value ↔ first.mask < second.mask := by
  refine ⟨fun less => ?_, places.value_lt also apart⟩
  rcases Nat.lt_trichotomy first.mask second.mask with lower | same | higher
  · exact lower
  · rw [same, Nat.and_self] at apart
    exact absurd apart also.occupied
  · rw [Nat.and_comm] at apart
    exact absurd (also.value_lt places apart higher) (Nat.lt_asymm less)

theorem value_ne (places : first.HasPlaces) (also : second.HasPlaces)
    (apart : first.mask &&& second.mask = 0) : first.value ≠ second.value := by
  intro same
  have forth := places.value_lt_iff also apart
  rw [Nat.and_comm] at apart
  have back := also.value_lt_iff places apart
  have distinct : first.mask ≠ second.mask := by
    intro equal
    rw [equal, Nat.and_self] at apart
    exact also.occupied apart
  omega

/-- Beside a token without value there are only whole tens. -/
theorem tens_of_eq_zero (places : first.HasPlaces) (also : second.HasPlaces)
    (apart : first.mask &&& second.mask = 0) (zero : first.value = 0) :
    second.value % 10 = 0 := by
  have free := (supplies_iff.1 also.supplies).1
  have units := places.units_of_eq_zero zero
  have one := units_apart apart
  omega

end HasPlaces

end Token

/-- An entry is a number word or a linking word. -/
theorem Scheme.token_of_mem_entries {scheme : Scheme} {entry : Entry}
    (listed : entry ∈ scheme.lexicon.entries) :
    entry.token = .connector ∨ entry.token = .number entry.token.value := by
  have ofWords : ∀ {language numbers connectors} {entry : Entry},
      entry ∈ (Lexicon.ofWords language numbers connectors).entries →
        entry.token = .connector ∨ entry.token = .number entry.token.value := by
    intro language numbers connectors entry listed
    rcases List.mem_append.1 listed with number | connector
    · obtain ⟨word, -, rfl⟩ := List.mem_map.1 number
      exact .inr rfl
    · obtain ⟨word, -, rfl⟩ := List.mem_map.1 connector
      exact .inl rfl
  cases scheme with
  | french =>
    rcases List.mem_append.1 listed with simple | number
    · exact ofWords simple
    · obtain ⟨word, -, rfl⟩ := List.mem_map.1 number
      exact .inr rfl
  | english | spanish | japanese | chinese => exact ofWords listed

/-- Whatever a text says that is no linking word has its digits at places of its mask. -/
theorem Scheme.hasPlaces_of_from {scheme : Scheme} {token : Token}
    (found : Token.From scheme.lexicon token) (plain : token.isConnector = false) :
    token.HasPlaces := by
  cases found with
  | entry listed =>
    rcases token_of_mem_entries listed with linking | number
    · rw [linking] at plain
      cases plain
    · rw [number]
      exact Token.hasPlaces_number _
  | connector => cases plain
  | explicit written =>
    obtain ⟨nonempty, digits, rfl⟩ := Token.eq_written_of_explicit? written
    exact Token.hasPlaces_written nonempty digits

end Phrasebook.Numeral
