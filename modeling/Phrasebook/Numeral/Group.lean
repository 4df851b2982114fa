import Phrasebook.Numeral.Grammar

/-! Cutting a token sequence into numbers and writing them down.

The first token that a number refuses starts the next one. A refused
multiplier takes the number word before it along: "two hundred three hundred"
is 200 and 300. The written numbers are put side by side.
-/

set_option autoImplicit false

namespace Phrasebook.Numeral

/-- The order in which the numbers of a text are written down. -/
inductive ReadingOrder where
  | rightToLeft
  | leftToRight
  deriving Repr, DecidableEq

/-- Put written numbers side by side, from the last to the first or from the
first to the last. -/
def ReadingOrder.layOut : ReadingOrder → List (List Char) → List Char
  | .rightToLeft, numbers => numbers.reverse.foldl (fun written number => number ++ written) []
  | .leftToRight, numbers => numbers.foldl (fun written number => written ++ number) []

/-- Both orders give the same text. -/
theorem ReadingOrder.layOut_eq_flatten (order : ReadingOrder) (numbers : List (List Char)) :
    order.layOut numbers = numbers.flatten := by
  cases order with
  | rightToLeft =>
    simp only [layOut, List.foldl_reverse]
    induction numbers with
    | nil => rfl
    | cons number rest ih => simp [ih]
  | leftToRight =>
    suffices general : ∀ start : List Char,
        numbers.foldl (fun written number => written ++ number) start = start ++ numbers.flatten by
      simpa [layOut] using general []
    induction numbers with
    | nil => simp
    | cons number rest ih => simp [ih]

namespace Grammar

/-- A finished group, without the linking words at its end; nothing if no token
is left. -/
def close (group : List Token) : List (List Token) :=
  let kept := (group.reverse.dropWhile Token.isConnector).reverse
  if kept.isEmpty then [] else [kept]

/-- The state of a new group of `last` and a multiplier that its group refused. -/
def carry (g : Grammar) (group : List Token) (token : Token) (next : Option Token) :
    Verdict g.State :=
  match group.getLast? with
  | none => .refused
  | some last =>
    if group.length < 2 || !g.isMultiplier token || last.isConnector || g.isMultiplier last then
      .refused
    else (g.push g.initial last (some token)).bind fun state => g.push state token next

/-- Cut the tokens that follow an open group. A linking word cannot start a
group and is dropped there. -/
def segmentFrom (g : Grammar) (group : List Token) (state : g.State) :
    List Token → Option (List (List Token))
  | [] => some (close group)
  | token :: rest =>
    match g.push state token rest.head? with
    | .overflow => none
    | .joined next => g.segmentFrom (group ++ [token]) next rest
    | .refused =>
      match g.carry group token rest.head? with
      | .overflow => none
      | .joined next =>
        (g.segmentFrom (group.drop (group.length - 1) ++ [token]) next rest).map
          (close group.dropLast ++ ·)
      | .refused =>
        match g.push g.initial token rest.head? with
        | .overflow => none
        | .joined next => (g.segmentFrom [token] next rest).map (close group ++ ·)
        | .refused => (g.segmentFrom [] g.initial rest).map (close group ++ ·)

def segment (g : Grammar) (tokens : List Token) : Option (List (List Token)) :=
  g.segmentFrom [] g.initial tokens

/-- Write a digit string of its own as it was written, any other group as the
decimal digits of its value. -/
def render? (g : Grammar) (group : List Token) : Option (List Char) :=
  match group with
  | [⟨value, mask, .explicit⟩] =>
    let digits := Nat.toDigits 10 value
    some (List.replicate (countPositions mask - digits.length) '0' ++ digits)
  | _ => (g.groupValue? group).map (Nat.toDigits 10)

/-- Read a token sequence as numbers side by side. There is nothing to read
before a linking word at the front. -/
def resolve (g : Grammar) (order : ReadingOrder) (tokens : List Token) : Option (List Char) :=
  if tokens.head?.all Token.isConnector then none
  else
    match g.segment tokens with
    | none | some [] => none
    | some groups => (groups.mapM g.render?).map order.layOut

end Grammar

end Phrasebook.Numeral
