import Phrasebook.Numeral.Lexicon
import Phrasebook.Proofs.WesternReading

/-! Spanish numerals and their values.

A numeral is a list of words, each with what it stands for. Hundreds other than one
are words of their own, a linking word stands between tens and units, and before a
scale word the last one is shortened. Read word by word it is one number, the one
that it was made from.
-/

set_option autoImplicit false

namespace Phrasebook.Numeral.Spanish

open Western

def simpleNames : List String :=
  ["cero", "uno", "dos", "tres", "cuatro", "cinco", "seis", "siete", "ocho", "nueve", "diez",
    "once", "doce", "trece", "catorce", "quince", "dieciséis", "diecisiete", "dieciocho",
    "diecinueve", "veinte", "veintiuno", "veintidós", "veintitrés", "veinticuatro", "veinticinco",
    "veintiséis", "veintisiete", "veintiocho", "veintinueve"]

def tensNames : List String :=
  ["cero", "diez", "veinte", "treinta", "cuarenta", "cincuenta", "sesenta", "setenta", "ochenta",
    "noventa"]

def hundredsNames : List String :=
  ["cero", "ciento", "doscientos", "trescientos", "cuatrocientos", "quinientos", "seiscientos",
    "setecientos", "ochocientos", "novecientos"]

/-- The name of a number below thirty, with the forms that one takes before a scale word. -/
def simpleName (short : Bool) (n : Nat) : String :=
  if short ∧ n = 1 then "un"
  else if short ∧ n = 21 then "veintiún"
  else simpleNames[n]?.getD ""

def simple (short : Bool) (n : Nat) : Entry := .number (simpleName short n) n

def tens (digit : Nat) : Entry := .number (tensNames[digit]?.getD "") (digit * 10)

def hundreds (digit : Nat) : Entry := .number (hundredsNames[digit]?.getD "") (digit * 100)

def belowHundred (short : Bool) (n : Nat) : List Entry :=
  if n = 0 then []
  else if n < 30 then [simple short n]
  else
    tens (n / 10) :: if n % 10 = 0 then [] else [.connector "y", simple short (n % 10)]

/-- A hundred is `cien` if nothing follows it before the next scale word. -/
def belowThousand (short : Bool) (n : Nat) : List Entry :=
  if n = 100 then [.number "cien" 100]
  else
    (if n / 100 = 0 then [] else [hundreds (n / 100)]) ++ belowHundred short (n % 100)

/-- A thousand is said without a one before it. -/
def thousands (count : Nat) : List Entry :=
  if count = 0 then []
  else (if count = 1 then [] else belowThousand true count) ++ [.number "mil" 1000]

def millions (count : Nat) : List Entry :=
  if count = 0 then []
  else
    belowThousand true count ++ [.number (if count = 1 then "millón" else "millones") 1000000]

/-- The words of a number below 10^9. -/
def numeral (n : Nat) : List Entry :=
  if n = 0 then [simple false 0]
  else millions (n / 10 ^ 6) ++ thousands (n / 1000 % 1000) ++ belowThousand false (n % 1000)

variable {capacity : Capacity} {bound : Nat} {state : Western} (short : Bool)

/-- The tokens of some words. -/
abbrev tokens (words : List Entry) : List Token := words.map Entry.token

theorem plain_of_mem_getLast? (front : List Token) (value : Nat) :
    ∀ token ∈ (front ++ [Token.number value]).getLast?, token.isConnector = false := by
  rw [List.getLast?_concat]
  rintro _ ⟨⟩
  rfl

theorem admits_unit {unit : Nat} (positive : 0 < unit) (small : unit < 10) :
    ConnectorRule.beforeUnit.admits (some (.number unit)) = true := by
  have within : unit ≤ 9 := by omega
  simp [ConnectorRule.admits, Token.isUnit, Token.number, within]
  omega

theorem exists_read_belowHundred {n : Nat} (room : capacity.HoldsBelow bound) (small : n < 100)
    (free : state.mask &&& 3 = 0) (fits : state.current + n < bound) :
    ∃ next, read capacity .beforeUnit state (tokens (belowHundred short n)) = .joined next ∧
      Adds state next n := by
  unfold belowHundred
  split
  · next zero => exact ⟨state, rfl, by rw [zero, Nat.add_zero], rfl, rfl⟩
  · split
    · exact exists_read_word room small free fits
    · split
      · next round =>
        have same : (tens (n / 10)).token = .number n := congrArg Token.number (by omega)
        rw [tokens, List.map_singleton, same]
        exact exists_read_word room small free fits
      · next unit =>
        -- The unit after the linking word is what lets that word join.
        obtain ⟨next, step, added⟩ : ∃ next, read capacity .beforeUnit state
            ([n / 10 * 10, n % 10].map Token.number) = .joined next ∧ Adds state next n :=
          exists_read_tens room (by omega) small unit free fits
        refine ⟨next, ?_, added⟩
        rw [← step]
        exact read_cons_connector rfl (admits_unit (by omega) (by omega)) []

/-- A word for hundreds, `ciento` or one that adds its value. -/
theorem read_hundreds {digit : Nat} (room : capacity.HoldsBelow bound) (positive : 0 < digit)
    (small : digit < 10) (fresh : state.current = 0 ∧ state.mask = 0) (fits : digit * 100 < bound) :
    read capacity .beforeUnit state [.number (digit * 100)] =
      .joined { state with current := digit * 100, mask := 4, started := true } := by
  by_cases one : digit = 1
  · subst one
    exact read_hundred room fresh fits
  · obtain ⟨total, current, mask, scale, started⟩ := state
    obtain ⟨rfl, rfl⟩ := fresh
    have plain : ∀ digit < 10, digit ≠ 1 → isMultiplier (.number (digit * 100)) = false := by
      decide +kernel
    have supplies : ∀ digit < 10, 0 < digit → digitMask (digit * 100) = 4 := by decide +kernel
    rw [read_cons_add room (plain digit small one) (Nat.zero_and _)
      (by simpa only [Nat.zero_add] using fits), supplies digit small positive, Nat.zero_add]
    simp only [Nat.zero_or]
    rfl

theorem exists_read_belowThousand {n : Nat} (room : capacity.HoldsBelow bound) (small : n < 1000)
    (fresh : state.current = 0 ∧ state.mask = 0) (fits : n < bound) :
    ∃ next, read capacity .beforeUnit state (tokens (belowThousand short n)) = .joined next ∧
      Adds state next n := by
  unfold belowThousand
  split
  · next hundred =>
    subst hundred
    exact ⟨_, read_hundred room fresh fits, by rw [fresh.1], rfl, rfl⟩
  · split
    · next zero =>
      have same : n % 100 = n := by omega
      rw [List.nil_append, same]
      exact exists_read_belowHundred short room (by omega) (by rw [fresh.2]; rfl) (by omega)
    · next nonzero =>
      have free : Western.mask { state with
          current := n / 100 * 100, mask := 4, started := true } &&& 3 = 0 := by
        show 4 &&& 3 = 0
        rfl
      obtain ⟨next, further, added⟩ := exists_read_belowHundred short (n := n % 100) room
        (by omega) free (by simp only; omega)
      refine ⟨next, ?_, by rw [added.current, fresh.1]; simp only; omega, added.total, added.scale⟩
      rw [tokens, List.map_append, ← further]
      exact read_append (plain_of_mem_getLast? [] _)
        (read_hundreds room (Nat.pos_of_ne_zero nonzero) (by omega) fresh (by omega)) _

/-- No numeral ends in a linking word. -/
theorem plain_of_mem_getLast?_belowThousand (n : Nat) :
    ∀ token ∈ (tokens (belowThousand short n)).getLast?, token.isConnector = false := by
  have below : ∀ token ∈ (tokens (belowHundred short (n % 100))).getLast?,
      token.isConnector = false := by
    unfold belowHundred
    split
    · simp
    · split
      · rintro _ ⟨⟩
        rfl
      · split
        · rintro _ ⟨⟩
          rfl
        · rintro _ ⟨⟩
          rfl
  unfold belowThousand
  split
  · rintro _ ⟨⟩
    rfl
  · intro token ends
    rw [tokens, List.map_append, List.getLast?_append, Option.mem_def, Option.or_eq_some_iff] at ends
    rcases ends with last | ⟨-, first⟩
    · exact below token last
    · split at first
      · simp at first
      · cases first
        rfl

variable {total upper : Nat}

/-- A count and its scale word go to the total. -/
theorem exists_read_scaled {count exponent : Nat} {scale : String} (room : capacity.HoldsBelow bound)
    (large : 3 ≤ exponent) (lower : exponent < upper) (positive : 0 < count) (small : count < 1000)
    (rests : Rests state total upper) (fits : total + count * 10 ^ exponent < bound)
    (rest : List Token) :
    ∃ next, Rests next (total + count * 10 ^ exponent) exponent ∧
      read capacity .beforeUnit state
          (tokens (belowThousand true count ++ [.number scale (10 ^ exponent)]) ++ rest) =
        read capacity .beforeUnit next rest := by
  have below := rests.below lower
  have least : count * 1 ≤ count * 10 ^ exponent :=
    Nat.mul_le_mul_left count (Nat.pow_pos (by decide))
  refine ⟨_, rests_scaled _ exponent, ?_⟩
  obtain ⟨rfl, empty, free, -⟩ := rests
  obtain ⟨middle, step, added⟩ :=
    exists_read_belowThousand true room small ⟨empty, free⟩ (by omega)
  rw [tokens, List.map_append]
  apply read_append (plain_of_mem_getLast? _ _)
  exact read_scaled room large positive empty below (plain_of_mem_getLast?_belowThousand true count)
    step added fits

theorem exists_read_thousands {count : Nat} (room : capacity.HoldsBelow bound) (lower : 3 < upper)
    (small : count < 1000) (rests : Rests state total upper) (fits : total + count * 10 ^ 3 < bound)
    (rest : List Token) :
    ∃ next, Rests next (total + count * 10 ^ 3) 3 ∧
      read capacity .beforeUnit state (tokens (thousands count) ++ rest) =
        read capacity .beforeUnit next rest := by
  unfold thousands
  split
  · next zero =>
    refine ⟨state, ?_, rfl⟩
    rw [zero, Nat.zero_mul, Nat.add_zero]
    exact rests.skip lower
  · next nonzero =>
    split
    · next one =>
      have below := rests.below lower
      rw [one, Nat.one_mul] at fits ⊢
      refine ⟨_, rests_scaled _ 3, ?_⟩
      obtain ⟨rfl, empty, -, -⟩ := rests
      exact read_append (plain_of_mem_getLast? [] _)
        (read_scale_once room (by decide) empty below fits) rest
    · exact exists_read_scaled room (by decide) lower (Nat.pos_of_ne_zero nonzero) small rests fits
        rest

theorem exists_read_millions {count : Nat} (room : capacity.HoldsBelow bound) (lower : 6 < upper)
    (small : count < 1000) (rests : Rests state total upper) (fits : total + count * 10 ^ 6 < bound)
    (rest : List Token) :
    ∃ next, Rests next (total + count * 10 ^ 6) 6 ∧
      read capacity .beforeUnit state (tokens (millions count) ++ rest) =
        read capacity .beforeUnit next rest := by
  unfold millions
  split
  · next zero =>
    refine ⟨state, ?_, rfl⟩
    rw [zero, Nat.zero_mul, Nat.add_zero]
    exact rests.skip lower
  · next nonzero =>
    exact exists_read_scaled room (by decide) lower (Nat.pos_of_ne_zero nonzero) small rests fits
      rest

/-- A numeral is read as the number that it was made from. -/
theorem exists_read_numeral {n : Nat} (room : capacity.HoldsBelow bound) (small : n < 10 ^ 9)
    (fits : n < bound) :
    ∃ next, read capacity .beforeUnit initial (tokens (numeral n)) = .joined next ∧
      next.total + next.current = n := by
  unfold numeral
  split
  · next zero =>
    subst zero
    have word : ∃ next, read capacity .beforeUnit initial ([0].map Token.number) = .joined next ∧
        Adds initial next 0 :=
      exists_read_word room (by decide) rfl fits
    obtain ⟨next, step, added⟩ := word
    exact ⟨next, step, by rw [added.total, added.current]; rfl⟩
  · -- After each scale word the section is empty, and the lower words come to the total.
    obtain ⟨first, rests, millionsRead⟩ := exists_read_millions room (by decide : 6 < 9)
      (show n / 10 ^ 6 < 1000 by omega) (rests_initial 9) (by omega)
      (tokens (thousands (n / 1000 % 1000)) ++ tokens (belowThousand false (n % 1000)))
    obtain ⟨second, rests, thousandsRead⟩ := exists_read_thousands room (by decide : 3 < 6)
      (show n / 1000 % 1000 < 1000 by omega) rests (by omega)
      (tokens (belowThousand false (n % 1000)))
    obtain ⟨next, step, added⟩ := exists_read_belowThousand false (n := n % 1000) room
      (by omega) ⟨rests.current, rests.mask⟩ (by omega)
    refine ⟨next, ?_, ?_⟩
    · rw [tokens, List.map_append, List.map_append, List.append_assoc, millionsRead, thousandsRead,
        step]
    · rw [added.total, added.current, rests.total, rests.current]
      omega

end Phrasebook.Numeral.Spanish
