import Phrasebook.Numeral.Grammar

/-! The grammar of English, Spanish and French numbers.

Words add up as long as they supply different decimal positions. A hundred
scales what was added before it, and larger scale words, each smaller than the
one before, move the section before them into the total.
-/

set_option autoImplicit false

namespace Phrasebook.Numeral

/-- When a linking word keeps a number open. -/
inductive ConnectorRule where
  /-- Before any number word or digit string: "one hundred and twenty". -/
  | beforeNumber
  /-- Only before a word worth 1 to 9: "treinta y dos". -/
  | beforeUnit
  deriving Repr, DecidableEq

def ConnectorRule.admits (rule : ConnectorRule) (next : Option Token) : Bool :=
  match rule with
  | .beforeNumber => next.any fun token => !token.isConnector
  | .beforeUnit => next.any Token.isUnit

structure Western where
  total : Nat
  current : Nat
  mask : Nat
  scale : Nat
  started : Bool
  deriving Repr, DecidableEq

namespace Western

def initial : Western := ⟨0, 0, 0, 0, false⟩

def isMultiplier (token : Token) : Bool := token.isPowerFrom 100

def add (capacity : Capacity) (state : Western) (token : Token) : Verdict Western :=
  if state.mask &&& token.mask ≠ 0 then .refused
  else
    .ofHeld (capacity.hold? (state.current + token.value)) fun held =>
      { state with current := held, mask := state.mask ||| token.mask, started := true }

/-- A scale word on its own counts once. -/
def base (state : Western) : Nat := if state.current = 0 then 1 else state.current

def multiply (capacity : Capacity) (state : Western) (token : Token) : Verdict Western :=
  if token.value < 1000 then
    if state.mask >>> token.highest ≠ 0 then .refused
    else
      .ofHeld (capacity.hold? (state.base * token.value)) fun held =>
        { state with current := held, mask := 1 <<< token.highest, started := true }
  else if state.scale ≠ 0 ∧ state.scale ≤ token.value then .refused
  else
    .ofHeld (capacity.hold? (state.total + state.base * token.value)) fun held =>
      { total := held, current := 0, mask := 0, scale := token.value, started := true }

def push (capacity : Capacity) (rule : ConnectorRule) (state : Western) (token : Token)
    (next : Option Token) : Verdict Western :=
  if token.isConnector then
    if state.started && rule.admits next then .joined state else .refused
  else if isMultiplier token then state.multiply capacity token
  else state.add capacity token

def grammar (capacity : Capacity) (rule : ConnectorRule) : Grammar where
  State := Western
  initial := initial
  push := push capacity rule
  isMultiplier := isMultiplier
  value? state := capacity.hold? (state.total + state.current)

end Western

end Phrasebook.Numeral
