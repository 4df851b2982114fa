import Phrasebook.Proofs.TokenSources
import Phrasebook.Proofs.Widening

/-! Numbers of 64 bits.

The grammars of all languages go along with their unlimited forms. In a Western number
only multipliers reach the limit: the mask of what was added bounds its value, because
a word joins only where its positions are free. In a Japanese or Chinese number a word
that overflows adds up what was waiting before it. So a text is read as it is without
a limit, or some number in it does not fit.
-/

set_option autoImplicit false

namespace Phrasebook.Numeral

/-- A mask that bounds a value: up to two positions, up to four, or no gap below the fifth. -/
structure MaskBounds (value mask : Nat) : Prop where
  two : mask < 4 → value ≤ 100 * mask
  four : mask < 16 → value ≤ 100000 * mask
  full : 16 ≤ mask → mask % 16 = 15

instance (value mask : Nat) : Decidable (MaskBounds value mask) :=
  decidable_of_iff ((mask < 4 → value ≤ 100 * mask) ∧ (mask < 16 → value ≤ 100000 * mask) ∧
    (16 ≤ mask → mask % 16 = 15))
    ⟨fun bounds => ⟨bounds.1, bounds.2.1, bounds.2.2⟩,
      fun bounds => ⟨bounds.two, bounds.four, bounds.full⟩⟩

theorem MaskBounds.zero : MaskBounds 0 0 :=
  ⟨fun _ => Nat.le_refl _, fun _ => Nat.le_refl _, fun many => absurd many (by decide)⟩

/-- Where the masks have no position in common, the sum is bounded by both, and is held. -/
theorem MaskBounds.add {first second mask other : Nat} (bounds : MaskBounds first mask)
    (others : MaskBounds second other) (apart : mask &&& other = 0) (positive : other ≠ 0)
    (held : second < UInt64.size) :
    MaskBounds (first + second) (mask ||| other) ∧ first + second < UInt64.size := by
  have low : mask % 16 &&& other % 16 = 0 := by
    rw [← Nat.and_mod_two_pow (n := 4), apart]
  have sums : ∀ one < 16, ∀ two < 16, one &&& two = 0 → one ||| two = one + two ∧ one + two < 16 := by
    decide
  have alone : ∀ one < 16, one &&& 15 = 0 → one = 0 := by decide
  have size : UInt64.size = 18446744073709551616 := rfl
  rcases Nat.lt_or_ge mask 16 with few | many
  · rcases Nat.lt_or_ge other 16 with short | long
    · obtain ⟨sum, bound⟩ := sums mask few other short apart
      have := bounds.two
      have := bounds.four few
      have := others.two
      have := others.four short
      rw [sum]
      refine ⟨⟨?_, ?_, ?_⟩, ?_⟩ <;> omega
    · -- Only nothing stands beside a digit string of five digits.
      rw [others.full long, Nat.mod_eq_of_lt few] at low
      have nothing := alone mask few low
      have := bounds.two
      have zero : first = 0 := by omega
      rw [nothing, Nat.zero_or, zero, Nat.zero_add]
      exact ⟨others, held⟩
  · rw [bounds.full many, Nat.and_comm] at low
    have := alone (other % 16) (by omega) low
    have := others.full
    omega

namespace Western

/-- A multiplier is a hundred, or a thousand or more; the mask of another word bounds its value. -/
def Admitted (token : Token) : Prop :=
  token.isConnector = true ∨ isMultiplier token = true ∨
    MaskBounds token.value token.mask ∧ token.mask ≠ 0 ∧ token.value < UInt64.size

instance (token : Token) : Decidable (Admitted token) := inferInstanceAs (Decidable (_ ∨ _))

theorem decimalValue_lt {digits : List Char} (all : digits.all Token.isDigit = true) :
    Token.decimalValue digits < 10 ^ digits.length := by
  -- The fold may start from a value of its own.
  have general : ∀ start, digits.foldl
      (fun value digit => 10 * value + (digit.toNat - '0'.toNat)) start <
        (start + 1) * 10 ^ digits.length := by
    induction digits with
    | nil => simp
    | cons digit digits ih =>
      intro start
      rw [List.all_cons, Bool.and_eq_true] at all
      have bound : digit.toNat - '0'.toNat ≤ 9 := by
        simp only [Token.isDigit, Bool.and_eq_true, decide_eq_true_eq] at all
        have most : digit.toNat ≤ '9'.toNat := all.1.2
        exact Nat.sub_le_sub_right most _
      calc (digit :: digits).foldl _ start
          < (10 * start + (digit.toNat - '0'.toNat) + 1) * 10 ^ digits.length := ih all.2 _
        _ ≤ ((start + 1) * 10) * 10 ^ digits.length := Nat.mul_le_mul_right _ (by omega)
        _ = (start + 1) * 10 ^ (digit :: digits).length := by
          rw [List.length_cons, Nat.pow_succ', Nat.mul_assoc]
  have whole := general 0
  rwa [Nat.zero_add, Nat.one_mul] at whole

theorem maskBounds_of_digits {value length : Nat} (positive : 0 < length)
    (less : value < 10 ^ length) : MaskBounds value (2 ^ length - 1) := by
  match length, positive with
  | 1, _ | 2, _ | 3, _ | 4, _ => exact ⟨by omega, by omega, by omega⟩
  | length + 5, _ =>
    have : 0 < 2 ^ length := Nat.two_pow_pos length
    have power : 2 ^ (length + 5) = 32 * 2 ^ length := by rw [Nat.pow_add, Nat.mul_comm]
    rw [power]
    exact ⟨by omega, by omega, by omega⟩

theorem admitted_of_explicit? {digits : List Char} {token : Token}
    (written : Token.explicit? digits = some token) : Admitted token := by
  unfold Token.explicit? at written
  split at written
  · simp at written
  · next readable =>
    split at written
    · next held =>
      cases written
      simp only [Bool.or_eq_true, not_or, List.isEmpty_iff, decide_eq_true_eq, Bool.not_eq_true',
        Bool.not_eq_false] at readable
      obtain ⟨⟨nonempty, -⟩, all⟩ := readable
      have positive := List.length_pos_iff.2 nonempty
      have power : 2 ^ 1 ≤ 2 ^ digits.length := Nat.pow_le_pow_right (by decide) positive
      rw [Nat.one_shiftLeft]
      exact .inr (.inr ⟨maskBounds_of_digits positive (decimalValue_lt all),
        Nat.sub_ne_zero_of_lt power, held⟩)
    · simp at written

theorem admitted_of_from {source : Scheme} {token : Token} (found : Token.From source.lexicon token) :
    Admitted token := by
  cases found with
  | entry listed =>
    have words : ∀ entry ∈ source.lexicon.entries, Admitted entry.token := by
      cases source <;> decide +kernel
    exact words _ listed
  | connector => exact .inl rfl
  | explicit written => exact admitted_of_explicit? written

variable {rule : ConnectorRule} {state : Western} {token : Token} {next : Option Token}

theorem eq_hundred (scales : isMultiplier token = true) (small : token.value < 1000) :
    token.value = 100 := by
  simp only [isMultiplier, Token.isPowerFrom, isPowerOfTen, Bool.and_eq_true, decide_eq_true_eq,
    beq_iff_eq] at scales
  obtain ⟨⟨-, least⟩, power⟩ := scales
  have place : position token.value = 2 := by
    rw [position, if_neg (by omega), position, if_neg (by omega), position, if_pos (by omega)]
  rw [place] at power
  exact power.symm

def weight (state : Western) : Nat := state.total + state.current

/-- The same state, whose mask bounds the section. -/
def Same (state other : Western) : Prop := state = other ∧ MaskBounds state.current state.mask

theorem multiply_agrees (bounds : MaskBounds state.current state.mask)
    (scales : isMultiplier token = true) :
    Agrees Same (UInt64.size ≤ weight ·) (state.multiply .word64 token)
      (state.multiply .unlimited token) := by
  unfold multiply
  split
  · next small =>
    have hundred := eq_hundred scales small
    have place : token.highest = 2 := by
      rw [Token.highest, hundred]
      decide +kernel
    split
    · exact .refused
    · next free =>
      refine .ofHeld (fun _ => ⟨rfl, ?_⟩) fun large => ?_
      · -- What a hundred scales is below the hundreds.
        have low : state.mask < 4 := by
          rw [place, Nat.shiftRight_eq_div_pow] at free
          omega
        have := bounds.two low
        have scaled : state.base * 100 ≤ 100000 * 4 := by
          rw [base]
          split <;> omega
        have bounded : MaskBounds (state.base * 100) 4 :=
          ⟨fun few => absurd few (by decide), fun _ => scaled, fun many => absurd many (by decide)⟩
        rw [place, hundred]
        exact bounded
      · exact Nat.le_trans large (Nat.le_add_left _ _)
  · split
    · exact .refused
    · refine .ofHeld (fun _ => ⟨rfl, ?_⟩) fun large => large
      exact .zero

/-- A word that is no multiplier is always held. -/
theorem add_agrees (bounds : MaskBounds state.current state.mask)
    (fits : MaskBounds token.value token.mask) (positive : token.mask ≠ 0)
    (held : token.value < UInt64.size) :
    Agrees Same (fun _ => False) (state.add .word64 token) (state.add .unlimited token) := by
  unfold add
  split
  · exact .refused
  · next free =>
    obtain ⟨sum, less⟩ := bounds.add fits (Decidable.not_not.1 free) positive held
    exact .ofHeld (fun _ => ⟨rfl, sum⟩) fun large => absurd less (Nat.not_lt.2 large)

theorem push_agrees (bounds : MaskBounds state.current state.mask) (admitted : Admitted token)
    (next : Option Token) :
    Agrees Same (fun after => isMultiplier token = true ∧ UInt64.size ≤ weight after)
      (push .word64 rule state token next) (push .unlimited rule state token next) := by
  unfold push
  split
  · split
    · exact .joined ⟨rfl, bounds⟩
    · exact .refused
  · next plain =>
    split
    · next scales => exact (multiply_agrees bounds scales).imp fun _ heavy => ⟨scales, heavy⟩
    · next single =>
      rcases admitted with linking | scales | ⟨fits, positive, held⟩
      · exact absurd linking plain
      · exact absurd scales single
      · exact (add_agrees bounds fits positive held).imp fun _ never => never.elim

/-- Every token keeps or raises the value of a number, and a linking word keeps the number. -/
theorem weight_of_push {capacity : Capacity} {after : Western}
    (joined : push capacity rule state token next = .joined after) :
    weight state ≤ weight after ∧ (token.isConnector = true → after = state) := by
  unfold push at joined
  split at joined
  · split at joined
    · cases joined
      exact ⟨Nat.le_refl _, fun _ => rfl⟩
    · simp at joined
  · next plain =>
    refine ⟨?_, fun linking => absurd linking plain⟩
    split at joined
    · next scales =>
      unfold multiply at joined
      have least : 100 ≤ token.value := by
        simp only [isMultiplier, Token.isPowerFrom, Bool.and_eq_true, decide_eq_true_eq] at scales
        exact scales.1.2
      have scaled : state.current ≤ state.base * token.value := by
        rw [base]
        split
        · omega
        · exact Nat.le_mul_of_pos_right _ (by omega)
      split at joined
      · split at joined
        · simp at joined
        · obtain rfl := Verdict.eq_of_ofHeld joined
          exact Nat.add_le_add_left scaled _
      · split at joined
        · simp at joined
        · obtain rfl := Verdict.eq_of_ofHeld joined
          exact Nat.add_le_add_left scaled _
    · unfold add at joined
      split at joined
      · simp at joined
      · obtain rfl := Verdict.eq_of_ofHeld joined
        exact Nat.add_le_add_left (Nat.le_add_right _ _) _

theorem push_ne_overflow (rule : ConnectorRule) (state : Western) (token : Token)
    (next : Option Token) : push .unlimited rule state token next ≠ .overflow := by
  unfold push
  split
  · split <;> simp
  · split
    · unfold multiply
      split <;> split <;> simp [Verdict.ofHeld, Capacity.hold?_unlimited]
    · unfold add
      split <;> simp [Verdict.ofHeld, Capacity.hold?_unlimited]

/-- A Western grammar with values of any size. -/
def widens (rule : ConnectorRule) :
    Widens UInt64.size (grammar .word64 rule) (grammar .unlimited rule) Admitted where
  positive := by decide
  Same := Same
  weight := weight
  initial := ⟨rfl, .zero⟩
  weightless := rfl
  multiplier := rfl
  push := by
    rintro state _ token ⟨rfl, bounds⟩ admitted next
    exact (push_agrees bounds admitted next).imp fun _ => .inr
  unlimited := push_ne_overflow rule
  grows := fun joined => (weight_of_push joined).1
  linking := fun linking joined => congrArg weight ((weight_of_push joined).2 linking)
  total := fun state => ⟨_, rfl, Nat.le_refl _⟩
  held := by
    rintro state _ total ⟨rfl, -⟩ value
    cases value
    exact Capacity.hold?_word64 _

end Western

namespace Positional

variable {state : Positional} {token : Token}

def weight (state : Positional) : Nat := state.total + state.block + state.pendingValue 0

theorem weight_of_waits {pending : Pending} (waits : state.pending = some pending) :
    weight state = state.total + state.block + pending.value := by
  rw [weight, pendingValue, waits]
  rfl

theorem weight_of_vacant (vacant : state.pending = none) :
    weight state = state.total + state.block := by
  rw [weight, pendingValue, vacant]
  rfl

/-- A multiplier overflows by its product, another word by what waited before it. -/
theorem push_agrees (state : Positional) (token : Token) :
    Agrees Eq
      (fun after => UInt64.size ≤ weight state ∨
        isMultiplier token = true ∧ UInt64.size ≤ weight after)
      (push .word64 state token) (push .unlimited state token) := by
  unfold push
  split
  · split
    · exact .joined rfl
    · exact .refused
  · split
    · next scales =>
      unfold multiply
      split
      · split
        · exact .refused
        · refine .ofHeld (fun _ => rfl) fun large => .inr ⟨scales, ?_⟩
          exact Nat.le_trans large (Nat.le_add_left _ _)
      · split
        · exact .refused
        · exact .ofHeld (fun _ => rfl) fun large => .inr ⟨scales, large⟩
    · unfold add
      split
      · exact .refused
      · split
        · exact .joined rfl
        · next pending waits =>
          split
          · exact .refused
          · refine .ofHeld (fun _ => rfl) fun large => .inl ?_
            rw [weight_of_waits waits]
            omega

theorem weight_of_multiply {capacity : Capacity} {after : Positional} (positive : 0 < token.value)
    (joined : multiply capacity state token = .joined after) : weight state ≤ weight after := by
  unfold multiply at joined
  split at joined
  · split at joined
    · simp at joined
    · obtain rfl := Verdict.eq_of_ofHeld joined
      have claimed : state.pendingValue 0 ≤ state.pendingValue 1 := by
        unfold pendingValue
        cases state.pending <;> simp
      have scaled := Nat.le_trans claimed (Nat.le_mul_of_pos_right _ positive)
      rw [weight, weight_of_vacant rfl]
      simp only
      omega
  · split at joined
    · simp at joined
    · obtain rfl := Verdict.eq_of_ofHeld joined
      have counted : state.block + state.pendingValue 0 ≤ state.base := by
        unfold base
        split <;> omega
      have scaled := Nat.le_trans counted (Nat.le_mul_of_pos_right _ positive)
      rw [weight, weight_of_vacant rfl, Nat.add_assoc]
      exact Nat.add_le_add_left scaled _

theorem weight_of_add {capacity : Capacity} {after : Positional}
    (joined : add capacity state token = .joined after) : weight state ≤ weight after := by
  unfold add at joined
  split at joined
  · simp at joined
  · split at joined
    · next vacant =>
      cases joined
      rw [weight_of_vacant vacant, weight_of_waits rfl]
      exact Nat.le_add_right _ _
    · next pending waits =>
      split at joined
      · simp at joined
      · obtain rfl := Verdict.eq_of_ofHeld joined
        rw [weight_of_waits waits, weight_of_waits rfl]
        simp only [wait]
        omega

/-- Every token keeps or raises the value of a number, and a linking word keeps it. -/
theorem weight_of_push {capacity : Capacity} {after : Positional}
    (joined : push capacity state token = .joined after) :
    weight state ≤ weight after ∧ (token.isConnector = true → weight after = weight state) := by
  unfold push at joined
  split at joined
  · split at joined
    · cases joined
      exact ⟨Nat.le_refl _, fun _ => rfl⟩
    · simp at joined
  · next plain =>
    refine ⟨?_, fun linking => absurd linking plain⟩
    split at joined
    · next scales =>
      simp only [isMultiplier, Token.isPowerFrom, Bool.and_eq_true, decide_eq_true_eq] at scales
      exact weight_of_multiply (by omega) joined
    · exact weight_of_add joined

theorem push_ne_overflow (state : Positional) (token : Token) :
    push .unlimited state token ≠ .overflow := by
  unfold push
  split
  · split <;> simp
  · split
    · unfold multiply
      split <;> split <;> simp [Verdict.ofHeld, Capacity.hold?_unlimited]
    · unfold add
      split
      · simp
      · split
        · simp
        · split <;> simp [Verdict.ofHeld, Capacity.hold?_unlimited]

theorem pendingValue_le_tail (abbreviates : Bool) (state : Positional) :
    state.pendingValue 0 ≤ state.tail abbreviates := by
  unfold tail pendingValue
  cases state.pending with
  | none => exact Nat.le_refl _
  | some pending =>
    simp only
    split
    · next shortened =>
      simp only [Bool.and_eq_true, decide_eq_true_eq] at shortened
      exact Nat.le_mul_of_pos_right _ (by omega)
    · exact Nat.le_refl _

/-- A positional grammar with values of any size. -/
def widens (abbreviates : Bool) :
    Widens UInt64.size (grammar .word64 abbreviates) (grammar .unlimited abbreviates)
      fun _ => True where
  positive := by decide
  Same := Eq
  weight := weight
  initial := rfl
  weightless := rfl
  multiplier := rfl
  push := by
    rintro state _ token rfl - -
    exact push_agrees state token
  unlimited := fun state token _ => push_ne_overflow state token
  grows := fun joined => (weight_of_push joined).1
  linking := fun linking joined => (weight_of_push joined).2 linking
  total := fun state => ⟨_, rfl, Nat.add_le_add_left (pendingValue_le_tail abbreviates state) _⟩
  held := by
    rintro state _ total rfl value
    cases value
    exact Capacity.hold?_word64 _

end Positional

namespace Scheme

/-- The tokens of a text are written as they are without a limit of 64 bits. If nothing is written,
though the first one is no linking word, some number is worth 2^64 at least. -/
theorem resolve_word64 (scheme source : Scheme) {text : List Char} {tokens : List Token}
    (read : scheme.tokenize source.lexicon.vocabulary text = some tokens) (order : ReadingOrder) :
    (∀ written, (scheme.grammar .word64).resolve order tokens = some written →
        (scheme.grammar .unlimited).resolve order tokens = some written) ∧
      ∀ first rest, tokens = first :: rest → first.isConnector = false →
        (scheme.grammar .word64).resolve order tokens = none →
          ∃ groups, (scheme.grammar .unlimited).segment tokens = some groups ∧
            ∃ group ∈ groups, ∃ value,
              (scheme.grammar .unlimited).groupValue? group = some value ∧ 2 ^ 64 ≤ value := by
  have agrees : ∃ Admitted, ∃ wide : Widens UInt64.size (scheme.grammar .word64)
      (scheme.grammar .unlimited) Admitted, ∀ token ∈ tokens, Admitted token := by
    have found := from_of_tokenize scheme read
    cases scheme with
    | english | spanish | french =>
      exact ⟨_, Western.widens _, fun token member => Western.admitted_of_from (found token member)⟩
    | japanese | chinese => exact ⟨_, Positional.widens _, fun _ _ => trivial⟩
  obtain ⟨Admitted, wide, fits⟩ := agrees
  obtain ⟨same, reaches⟩ := wide.resolve_agrees (isSteady scheme _) (isSteady scheme _) fits order
  refine ⟨same, ?_⟩
  rintro first rest rfl plain lost
  exact reaches lost plain

/-- A number beyond 64 bits before another one, and the largest whole trillions. -/
theorem resolve_trillions :
    (∃ groups, (english.grammar .unlimited).segment [⟨18446745, 255, .explicit⟩,
        .number 1000000000000, .connector, .number 2, .number 2] = some groups ∧
      ∃ group ∈ groups, ∃ value,
        (english.grammar .unlimited).groupValue? group = some value ∧ 2 ^ 64 ≤ value) ∧
      (english.grammar .unlimited).resolve .rightToLeft
        [⟨18446744, 255, .explicit⟩, .number 1000000000000, .number 2, .number 2] =
          some "184467440000000000022".toList := by
  have beyond : english.tokenize english.lexicon.vocabulary
      "18446745 trillion and two two".toList =
      some [⟨18446745, 255, .explicit⟩, .number 1000000000000, .connector, .number 2,
        .number 2] := by
    decide +kernel
  have below : english.tokenize english.lexicon.vocabulary "18446744 trillion two two".toList =
      some [⟨18446744, 255, .explicit⟩, .number 1000000000000, .number 2, .number 2] := by
    decide +kernel
  exact ⟨(resolve_word64 english english beyond .rightToLeft).2 _ _ rfl rfl (by decide +kernel),
    (resolve_word64 english english below .rightToLeft).1 _ (by decide +kernel)⟩

end Scheme

end Phrasebook.Numeral
