import Phrasebook.Numeral.Token

/-! Grammars that decide which tokens make up one number.

A grammar is a machine that takes tokens one by one. A token joins the number
that is being built, or the machine refuses it and it has to start a number of
its own. Values are held up to a capacity; beyond it the machine overflows.
-/

set_option autoImplicit false

namespace Phrasebook.Numeral

/-- The values that can be held: those below the limit, or all. -/
structure Capacity where
  limit : Option Nat
  deriving Repr, DecidableEq

namespace Capacity

def word64 : Capacity := ⟨some UInt64.size⟩

def unlimited : Capacity := ⟨none⟩

def fits (capacity : Capacity) (value : Nat) : Bool := capacity.limit.all (value < ·)

def hold? (capacity : Capacity) (value : Nat) : Option Nat :=
  if capacity.fits value then some value else none

theorem hold?_unlimited (value : Nat) : unlimited.hold? value = some value := rfl

theorem hold?_word64 (value : Nat) :
    word64.hold? value = if value < UInt64.size then some value else none := by
  simp [hold?, fits, word64]

/-- What is held is unchanged. -/
theorem eq_of_hold? {capacity : Capacity} {value held : Nat}
    (holds : capacity.hold? value = some held) : held = value := by
  unfold hold? at holds
  split at holds <;> simp_all

end Capacity

/-- What a machine says to a token. -/
inductive Verdict (σ : Type) where
  | joined (state : σ)
  | refused
  | overflow
  deriving Repr, DecidableEq

namespace Verdict

def bind {σ τ : Type} (verdict : Verdict σ) (next : σ → Verdict τ) : Verdict τ :=
  match verdict with
  | joined state => next state
  | refused => refused
  | overflow => overflow

def ofHeld {σ : Type} (held : Option Nat) (next : Nat → σ) : Verdict σ :=
  match held with
  | none => overflow
  | some value => joined (next value)

end Verdict

structure Grammar where
  State : Type
  initial : State
  /-- Offer a token, given the one that follows it. -/
  push : State → Token → Option Token → Verdict State
  /-- Whether a token scales the value before it. -/
  isMultiplier : Token → Bool
  value? : State → Option Nat

namespace Grammar

def replay (g : Grammar) (state : g.State) : List Token → Verdict g.State
  | [] => .joined state
  | token :: rest => (g.push state token rest.head?).bind fun next => g.replay next rest

/-- The value of a group, if every token joins it. -/
def groupValue? (g : Grammar) (group : List Token) : Option Nat :=
  match g.replay g.initial group with
  | .joined state => g.value? state
  | _ => none

end Grammar

end Phrasebook.Numeral
