import Phrasebook.Numeral.Lexicon

/-! English number words, with a frequent misspelling of forty. -/

set_option autoImplicit false

namespace Phrasebook.Numeral.Lexicon

def english : Lexicon :=
  ofWords .english
    [("zero", 0), ("oh", 0), ("one", 1), ("two", 2), ("three", 3), ("four", 4), ("five", 5),
     ("six", 6), ("seven", 7), ("eight", 8), ("nine", 9), ("ten", 10), ("eleven", 11),
     ("twelve", 12), ("thirteen", 13), ("fourteen", 14), ("fifteen", 15), ("sixteen", 16),
     ("seventeen", 17), ("eighteen", 18), ("nineteen", 19), ("twenty", 20), ("thirty", 30),
     ("forty", 40), ("fourty", 40), ("fifty", 50), ("sixty", 60), ("seventy", 70), ("eighty", 80),
     ("ninety", 90), ("hundred", 100), ("thousand", 1000), ("million", 1000000),
     ("billion", 1000000000), ("trillion", 1000000000000)]
    ["and"]

end Phrasebook.Numeral.Lexicon
