import Phrasebook.Numeral.Grammar

/-! The grammar of Japanese and Chinese numbers.

Ten, hundred and thousand build a block of four positions; ten thousand and
beyond move the block into the total. A unit waits until a multiplier claims
it or the number ends.
-/

set_option autoImplicit false

namespace Phrasebook.Numeral

/-- A number word that no multiplier has claimed yet. -/
structure Pending where
  value : Nat
  mask : Nat
  afterMultiplier : Bool
  deriving Repr, DecidableEq

structure Positional where
  total : Nat
  block : Nat
  blockMask : Nat
  pending : Option Pending
  lastMultiplier : Nat
  lastLarge : Nat
  afterMultiplier : Bool
  deriving Repr, DecidableEq

namespace Positional

def initial : Positional := ⟨0, 0, 0, none, 0, 0, false⟩

def isMultiplier (token : Token) : Bool := token.isPowerFrom 10

def started (state : Positional) : Bool :=
  state.pending.isSome || state.blockMask != 0 || state.lastLarge != 0

/-- Value of the waiting unit, or `default` when none waits. -/
def pendingValue (state : Positional) (default : Nat) : Nat :=
  (state.pending.map Pending.value).getD default

def wait (state : Positional) (token : Token) : Positional :=
  { state with
    pending := some ⟨token.value, token.mask, state.afterMultiplier⟩
    afterMultiplier := false }

/-- A word joins below what waits, which then belongs to the block. -/
def add (capacity : Capacity) (state : Positional) (token : Token) : Verdict Positional :=
  if token.mask &&& state.blockMask ≠ 0 then .refused
  else
    match state.pending with
    | none => .joined (state.wait token)
    | some pending =>
      if pending.mask &&& token.mask ≠ 0 ∨ pending.mask < token.mask then .refused
      else
        .ofHeld (capacity.hold? (state.block + pending.value)) fun held =>
          { state with block := held, blockMask := state.blockMask ||| pending.mask }.wait
            token

def multiply (capacity : Capacity) (state : Positional) (token : Token) : Verdict Positional :=
  if token.value < 10000 then
    if state.blockMask &&& (1 <<< (token.highest + 1) - 1) ≠ 0 then .refused
    else
      .ofHeld (capacity.hold? (state.block + state.pendingValue 1 * token.value)) fun held =>
        { state with
          block := held
          blockMask := state.blockMask ||| 1 <<< token.highest
          pending := none
          lastMultiplier := token.value
          afterMultiplier := true }
  else if state.lastLarge ≠ 0 ∧ state.lastLarge ≤ token.value then .refused
  else
    let sum := state.block + state.pendingValue 0
    let base := if sum = 0 then 1 else sum
    .ofHeld (capacity.hold? (state.total + base * token.value)) fun held =>
      { total := held
        block := 0
        blockMask := 0
        pending := none
        lastMultiplier := token.value
        lastLarge := token.value
        afterMultiplier := true }

def push (capacity : Capacity) (state : Positional) (token : Token) : Verdict Positional :=
  if token.isConnector then
    if state.started then .joined { state with afterMultiplier := false } else .refused
  else if isMultiplier token then state.multiply capacity token
  else state.add capacity token

/-- What the waiting unit adds at the end. With abbreviation a unit right after
a multiplier stands for the next lower position: 两百五 is 250. -/
def tail (abbreviates : Bool) (state : Positional) : Nat :=
  match state.pending with
  | none => 0
  | some pending =>
    if abbreviates && pending.afterMultiplier && decide (pending.value < 10) &&
        decide (10 ≤ state.lastMultiplier) then
      pending.value * (state.lastMultiplier / 10)
    else pending.value

def grammar (capacity : Capacity) (abbreviates : Bool) : Grammar where
  State := Positional
  initial := initial
  push state token _ := push capacity state token
  isMultiplier := isMultiplier
  value? state := capacity.hold? (state.total + state.block + state.tail abbreviates)

end Positional

end Phrasebook.Numeral
