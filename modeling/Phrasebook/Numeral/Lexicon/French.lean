import Phrasebook.Numeral.Lexicon

/-! French number words.

Compounds from 17 to 99 that are more than a ten and a unit are entries of
their own, with a space between their words.
-/

set_option autoImplicit false

namespace Phrasebook.Numeral.Lexicon

namespace French

def simple : List (String × Nat) :=
  [("zéro", 0), ("zero", 0), ("une", 1), ("dix", 10), ("vingts", 20), ("septante", 70),
    ("huitante", 80), ("octante", 80), ("nonante", 90), ("cent", 100), ("cents", 100),
    ("mille", 1000), ("mil", 1000), ("million", 1000000), ("millions", 1000000),
    ("milliard", 1000000000), ("milliards", 1000000000)]

def units : List (String × Nat) :=
  [("un", 1), ("deux", 2), ("trois", 3), ("quatre", 4), ("cinq", 5), ("six", 6), ("sept", 7),
    ("huit", 8), ("neuf", 9)]

def teens : List (String × Nat) :=
  [("onze", 11), ("douze", 12), ("treize", 13), ("quatorze", 14), ("quinze", 15), ("seize", 16)]

def tens : List (String × Nat) :=
  [("vingt", 20), ("trente", 30), ("quarante", 40), ("cinquante", 50), ("soixante", 60)]

/-- The units that follow `dix`. -/
def highUnits : List (String × Nat) := units.drop 6

/-- The twenty numbers that count on from a base: ten, eleven to nineteen. -/
def onBase (base : String × Nat) : List (String × Nat) :=
  (base.1 ++ " dix", base.2 + 10) ::
    (teens.map fun teen => (base.1 ++ " " ++ teen.1, base.2 + teen.2)) ++
    highUnits.map fun unit => (base.1 ++ " dix " ++ unit.1, base.2 + 10 + unit.2)

def compounds : List (String × Nat) :=
  (tens.flatMap fun ten =>
    [ten, (ten.1 ++ " et un", ten.2 + 1), (ten.1 ++ " et une", ten.2 + 1)]) ++
  (highUnits.map fun unit => ("dix " ++ unit.1, 10 + unit.2)) ++
  [("soixante", 60), ("quatre vingt", 80)].flatMap onBase ++
  [("soixante et onze", 71), ("quatre vingt", 80), ("quatre vingts", 80)] ++
  (units.map fun unit => ("quatre vingt " ++ unit.1, 80 + unit.2)) ++
  [("quatre vingt une", 81)]

end French

def french : Lexicon where
  language := .french
  entries :=
    (ofWords .french French.simple ["et"]).entries ++
      (French.units ++ French.teens ++ French.compounds).map fun word => .number word.1 word.2

end Phrasebook.Numeral.Lexicon
