import Mathlib.Data.List.Basic
import Mathlib.Data.List.Induction
import Phrasebook.Numeral.Registry
import Phrasebook.Proofs.WesternReading

/-! Tokens that are numbers of their own.

A word for a digit and a written digit string both supply the units. So no two of them make
up one number, in any language, and each is written down by itself.
-/

set_option autoImplicit false

namespace Phrasebook.Numeral

namespace Token

variable {text : List Char} {token : Token}

/-- The token of a digit string. -/
def written (text : List Char) : Token := ⟨decimalValue text, 1 <<< text.length - 1, .explicit⟩

theorem explicit?_eq_some_iff :
    explicit? text = some token ↔
      text ≠ [] ∧ text.length ≤ maxDigits ∧ text.all isDigit = true ∧
        decimalValue text < UInt64.size ∧ token = written text := by
  have readable : (text.isEmpty || decide (maxDigits < text.length) || !text.all isDigit) = false ↔
      text ≠ [] ∧ text.length ≤ maxDigits ∧ text.all isDigit = true := by
    simp [and_assoc]
  rw [explicit?]
  split
  · next refused =>
    refine iff_of_false (by simp) fun ⟨nonempty, short, digits, _⟩ => ?_
    rw [readable.2 ⟨nonempty, short, digits⟩] at refused
    cases refused
  · next kept =>
    obtain ⟨nonempty, short, digits⟩ := readable.1 (Bool.not_eq_true _ ▸ kept)
    simp [nonempty, short, digits, written, eq_comm]

theorem explicit?_eq_some (nonempty : text ≠ []) (short : text.length ≤ maxDigits)
    (digits : text.all isDigit = true) (fits : decimalValue text < UInt64.size) :
    explicit? text = some (written text) :=
  explicit?_eq_some_iff.2 ⟨nonempty, short, digits, fits, rfl⟩

theorem of_isDigit {c : Char} (digit : isDigit c = true) :
    c.toNat - '0'.toNat < 10 ∧ Nat.digitChar (c.toNat - '0'.toNat) = c := by
  simp only [isDigit, Bool.and_eq_true, decide_eq_true_eq] at digit
  have least : 48 ≤ c.toNat := digit.1
  have most : c.toNat ≤ 57 := digit.2
  have small : c.toNat - '0'.toNat < 10 := Nat.lt_of_le_of_lt (Nat.sub_le_sub_right most _) (by decide)
  refine ⟨small, Char.toNat_inj.1 ?_⟩
  rw [Nat.toNat_digitChar_of_lt_ten small]
  exact Nat.add_sub_of_le least

theorem decimalValue_concat (text : List Char) (digit : Char) :
    decimalValue (text ++ [digit]) = 10 * decimalValue text + (digit.toNat - '0'.toNat) :=
  List.foldl_concat ..

/-- A digit string is its value with zeros in front. -/
theorem exists_zeros_append (nonempty : text ≠ []) (digits : text.all isDigit = true) :
    ∃ zeros, text = List.replicate zeros '0' ++ Nat.toDigits 10 (decimalValue text) := by
  induction text using List.reverseRecOn with
  | nil => exact absurd rfl nonempty
  | append_singleton front digit ih =>
    rw [List.all_append, Bool.and_eq_true] at digits
    obtain ⟨small, same⟩ := of_isDigit (c := digit) (by simpa using digits.2)
    rw [decimalValue_concat]
    -- As long as the value is zero, all digits before the last one are zeros in front.
    by_cases zero : decimalValue front = 0
    · rw [zero, Nat.mul_zero, Nat.zero_add, Nat.toDigits_of_lt_base small, same]
      by_cases alone : front = []
      · exact ⟨0, by simp [alone]⟩
      · obtain ⟨zeros, padded⟩ := ih alone digits.1
        refine ⟨zeros + 1, ?_⟩
        rw [padded, zero, List.replicate_succ']
        rfl
    · have filled : front ≠ [] := by
        rintro rfl
        exact zero rfl
      obtain ⟨zeros, padded⟩ := ih filled digits.1
      refine ⟨zeros, ?_⟩
      rw [← Nat.toDigits_append_toDigits (by decide) (Nat.pos_of_ne_zero zero) small,
        Nat.toDigits_of_lt_base small, same, ← List.append_assoc, ← padded]

theorem countPositions_full (length : Nat) : countPositions (2 ^ length - 1) = length := by
  induction length with
  | zero => simp [countPositions]
  | succ length ih =>
    have power : 0 < 2 ^ length := Nat.two_pow_pos length
    have odd : (2 ^ (length + 1) - 1) % 2 = 1 := by omega
    have half : (2 ^ (length + 1) - 1) / 2 = 2 ^ length - 1 := by omega
    rw [countPositions, if_neg (by omega), odd, half, ih, Nat.add_comm]

/-- How a token is written down that is a number of its own. -/
def reading (token : Token) : List Char :=
  match token.kind with
  | .explicit =>
    List.replicate (token.width - (Nat.toDigits 10 token.value).length) '0' ++
      Nat.toDigits 10 token.value
  | .number | .connector => Nat.toDigits 10 token.value

/-- A digit string keeps its leading zeros. -/
theorem reading_written (nonempty : text ≠ []) (digits : text.all isDigit = true) :
    (written text).reading = text := by
  obtain ⟨zeros, padded⟩ := exists_zeros_append nonempty digits
  have width : (written text).width = text.length := by
    rw [width, written, Nat.one_shiftLeft, countPositions_full]
  have length := congrArg List.length padded
  rw [List.length_append, List.length_replicate] at length
  have missing : (written text).width - (Nat.toDigits 10 (decimalValue text)).length = zeros := by
    omega
  show List.replicate ((written text).width - (Nat.toDigits 10 (decimalValue text)).length) '0' ++
    Nat.toDigits 10 (decimalValue text) = text
  rw [missing, ← padded]

/-- A token that supplies the units and scales nothing. -/
structure IsSeparate (token : Token) : Prop where
  plain : token.isConnector = false
  unscaled : token.isPowerFrom 10 = false
  notTen : Scheme.isTen token = false
  units : token.mask % 2 = 1
  fits : token.value < UInt64.size

theorem isSeparate_number {value : Nat} (small : value < 10) : (number value).IsSeparate := by
  have units : digitMask value = 1 := by
    rcases Nat.eq_zero_or_pos value with rfl | positive
    · rfl
    · exact digitMask_of_unit value small positive
  have least : decide (10 ≤ value) = false := by simpa using small
  have notTen : (value == 10) = false := by simpa using Nat.ne_of_lt small
  refine ⟨rfl, ?_, ?_, ?_, Nat.lt_trans small (by decide)⟩
  · rw [isPowerFrom, number, least, Bool.and_false, Bool.false_and]
  · rw [Scheme.isTen, number, notTen, Bool.and_false]
  · show digitMask value % 2 = 1
    rw [units]

theorem isSeparate_written (nonempty : text ≠ []) (fits : decimalValue text < UInt64.size) :
    (written text).IsSeparate := by
  obtain ⟨others, length⟩ := Nat.exists_eq_add_of_le' (List.length_pos_iff.2 nonempty)
  have odd : (2 ^ (others + 1) - 1) % 2 = 1 := by
    have power : 0 < 2 ^ others := Nat.two_pow_pos others
    omega
  refine ⟨rfl, rfl, rfl, ?_, fits⟩
  rwa [written, length, Nat.one_shiftLeft]

end Token

namespace Grammar

open Token (IsSeparate)

variable {g : Grammar} {after : Token → g.State} {tokens : List Token}

/-- A token that supplies the units starts a number, which no other such token joins. -/
structure Separates (g : Grammar) (after : Token → g.State) : Prop where
  starts : ∀ token next, IsSeparate token → g.push g.initial token next = .joined (after token)
  refuses : ∀ token other next, IsSeparate token → IsSeparate other →
    g.push (after token) other next = .refused
  value : ∀ token, IsSeparate token → g.value? (after token) = some token.value

theorem Separates.segmentFrom (separates : g.Separates after) {token : Token}
    (first : IsSeparate token) (others : ∀ other ∈ tokens, IsSeparate other) :
    g.segmentFrom [token] (after token) tokens = some ((token :: tokens).map fun one => [one]) := by
  have closed (token : Token) (separate : IsSeparate token) : close [token] = [[token]] :=
    close_eq rfl separate.plain
  induction tokens generalizing token with
  | nil => rw [Grammar.segmentFrom, closed token first]; rfl
  | cons next rest ih =>
    obtain ⟨second, others⟩ := List.forall_mem_cons.1 others
    -- A group of one token leaves nothing to carry into the next number.
    have stays : g.carry [token] next rest.head? = .refused := by simp [carry]
    rw [Grammar.segmentFrom, separates.refuses token next _ first second]
    simp only [stays, separates.starts next _ second, ih second others, closed token first]
    rfl

theorem Separates.segment (separates : g.Separates after)
    (each : ∀ token ∈ tokens, IsSeparate token) :
    g.segment tokens = some (tokens.map fun one => [one]) := by
  cases tokens with
  | nil => rfl
  | cons token rest =>
    obtain ⟨first, others⟩ := List.forall_mem_cons.1 each
    rw [Grammar.segment, Grammar.segmentFrom, separates.starts token _ first]
    exact separates.segmentFrom first others

theorem Separates.render?_singleton (separates : g.Separates after) {token : Token}
    (separate : IsSeparate token) : g.render? [token] = some token.reading := by
  have value : g.groupValue? [token] = some token.value := by
    rw [groupValue?, replay, separates.starts token _ separate]
    exact separates.value token separate
  obtain ⟨number, mask, kind⟩ := token
  cases kind with
  | explicit => rfl
  | number | connector => rw [render?_eq (by simp), value]; rfl

theorem Separates.mapM_render? (separates : g.Separates after)
    (each : ∀ token ∈ tokens, IsSeparate token) :
    (tokens.map fun one => [one]).mapM g.render? = some (tokens.map Token.reading) := by
  induction tokens with
  | nil => rfl
  | cons token rest ih =>
    obtain ⟨first, others⟩ := List.forall_mem_cons.1 each
    rw [List.map_cons, List.mapM_cons, separates.render?_singleton first, ih others]
    rfl

/-- Tokens that supply the units are written down one after the other. -/
theorem Separates.resolve (separates : g.Separates after) (order : ReadingOrder)
    (nonempty : tokens ≠ []) (each : ∀ token ∈ tokens, IsSeparate token) :
    g.resolve order tokens = some (tokens.flatMap Token.reading) := by
  obtain ⟨token, rest, rfl⟩ := List.exists_cons_of_ne_nil nonempty
  have begins : (token :: rest).head?.all Token.isConnector = false :=
    (each token List.mem_cons_self).plain
  rw [Grammar.resolve, begins, separates.segment each]
  show (((token :: rest).map fun one => [one]).mapM g.render?).map order.layOut = _
  rw [separates.mapM_render? each, Option.map_some, ReadingOrder.layOut_eq_flatten,
    List.flatMap_def]

end Grammar

section

variable {token other : Token} (separate : token.IsSeparate)
include separate

theorem Token.IsSeparate.not_isMultiplier :
    Western.isMultiplier token = false ∧ Positional.isMultiplier token = false := by
  have unscaled := separate.unscaled
  refine ⟨?_, unscaled⟩
  rw [← Bool.not_eq_true] at unscaled ⊢
  intro scales
  simp only [Western.isMultiplier, Token.isPowerFrom, Bool.and_eq_true, decide_eq_true_eq] at scales
  exact unscaled (by simp [Token.isPowerFrom, scales, Nat.le_trans (by decide : 10 ≤ 100) scales.1.2])

/-- Two masks with the units have a position in common. -/
theorem Token.IsSeparate.masks_meet (also : other.IsSeparate) : token.mask &&& other.mask ≠ 0 := by
  intro apart
  have units := congrArg (Nat.testBit · 0) apart
  simp [separate.units, also.units] at units

end

/-- The state after one token that supplies the units. -/
def Western.ofToken (token : Token) : Western := ⟨0, token.value, token.mask, 0, true⟩

def Positional.ofToken (token : Token) : Positional := Positional.initial.wait token

theorem Western.push_of_isSeparate {token : Token} (separate : token.IsSeparate)
    (rule : ConnectorRule) (state : Western) (next : Option Token) :
    Western.push .word64 rule state token next = state.add .word64 token := by
  rw [push, if_neg (by simp [separate.plain]), if_neg (by simp [separate.not_isMultiplier])]

theorem Positional.push_of_isSeparate {token : Token} (separate : token.IsSeparate)
    (state : Positional) : Positional.push .word64 state token = state.add .word64 token := by
  rw [push, if_neg (by simp [separate.plain]), if_neg (by simp [separate.not_isMultiplier])]

theorem hold?_of_lt {value : Nat} (fits : value < UInt64.size) :
    Capacity.word64.hold? value = some value := by
  rw [Capacity.hold?_word64, if_pos fits]

theorem Western.separates (rule : ConnectorRule) :
    (Western.grammar .word64 rule).Separates Western.ofToken where
  starts token next separate := by
    have added : initial.add .word64 token = .joined (ofToken token) := by
      rw [add, if_neg (by simp [initial])]
      simp [initial, ofToken, hold?_of_lt separate.fits, Verdict.ofHeld]
    exact (push_of_isSeparate separate rule initial next).trans added
  refuses token other next separate also :=
    (push_of_isSeparate also rule (ofToken token) next).trans (if_pos (separate.masks_meet also))
  value token separate := by
    show Capacity.word64.hold? (0 + token.value) = _
    rw [Nat.zero_add, hold?_of_lt separate.fits]

theorem Positional.separates (abbreviates : Bool) :
    (Positional.grammar .word64 abbreviates).Separates Positional.ofToken where
  starts token next separate := by
    show Positional.push .word64 Positional.initial token = _
    rw [push_of_isSeparate separate, add, if_neg (by simp [initial])]
    rfl
  refuses token other next separate also := by
    show Positional.push .word64 (ofToken token) other = _
    rw [push_of_isSeparate also, add, if_neg (by simp [ofToken, initial, wait])]
    exact if_pos (.inl (separate.masks_meet also))
  value token separate := by
    show Capacity.word64.hold? (0 + 0 + (ofToken token).tail abbreviates) = _
    have alone : (ofToken token).tail abbreviates = token.value := by
      simp [tail, ofToken, initial, wait]
    rw [alone, Nat.zero_add, hold?_of_lt separate.fits]

namespace Scheme

theorem exists_separates (scheme : Scheme) :
    ∃ after, (scheme.grammar .word64).Separates after := by
  cases scheme with
  | english | french => exact ⟨_, Western.separates .beforeNumber⟩
  | spanish => exact ⟨_, Western.separates .beforeUnit⟩
  | japanese => exact ⟨_, Positional.separates false⟩
  | chinese => exact ⟨_, Positional.separates true⟩

/-- In every language, tokens that supply the units are written down one after the other. -/
theorem evaluate_of_isSeparate (scheme : Scheme) {tokens : List Token} (nonempty : tokens ≠ [])
    (each : ∀ token ∈ tokens, token.IsSeparate) :
    scheme.evaluate .word64 tokens = some (tokens.flatMap Token.reading) := by
  obtain ⟨after, separates⟩ := scheme.exists_separates
  -- Two tens that meet have no reading, but no token here is a ten.
  have clear : repeatsTen tokens = false := by
    rw [← Bool.not_eq_true, repeatsTen_iff]
    rintro ⟨first, second, -, -, ten, -⟩
    obtain ⟨token, listed, isTen⟩ := (Option.any_eq_true _ _).1 ten
    rw [(each token (List.mem_of_getElem? listed)).notTen] at isTen
    cases isTen
  have plain : scheme.isAmbiguous tokens = false := by cases scheme <;> first | exact clear | rfl
  rw [evaluate, if_neg (by simp [plain]), separates.resolve scheme.order nonempty each]

end Scheme

end Phrasebook.Numeral
