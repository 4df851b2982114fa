import Phrasebook.Numeral.Lexicon

/-! Spanish number words, with and without their accents. -/

set_option autoImplicit false

namespace Phrasebook.Numeral.Lexicon

def spanish : Lexicon :=
  ofWords .spanish
    [("cero", 0), ("un", 1), ("uno", 1), ("una", 1), ("dos", 2), ("tres", 3), ("cuatro", 4),
     ("cinco", 5), ("seis", 6), ("siete", 7), ("ocho", 8), ("nueve", 9), ("diez", 10),
     ("once", 11), ("doce", 12), ("trece", 13), ("catorce", 14), ("quince", 15),
     ("dieciséis", 16), ("dieciseis", 16), ("diecisiete", 17), ("dieciocho", 18),
     ("diecinueve", 19), ("veinte", 20), ("veintiuno", 21), ("veintiún", 21), ("veintiun", 21),
     ("veintiuna", 21), ("veintidós", 22), ("veintidos", 22), ("veintitrés", 23),
     ("veintitres", 23), ("veinticuatro", 24), ("veinticinco", 25), ("veintiséis", 26),
     ("veintiseis", 26), ("veintisiete", 27), ("veintiocho", 28), ("veintinueve", 29),
     ("treinta", 30), ("cuarenta", 40), ("cincuenta", 50), ("sesenta", 60), ("setenta", 70),
     ("ochenta", 80), ("noventa", 90), ("cien", 100), ("ciento", 100), ("doscientos", 200),
     ("doscientas", 200), ("trescientos", 300), ("trescientas", 300), ("cuatrocientos", 400),
     ("cuatrocientas", 400), ("quinientos", 500), ("quinientas", 500), ("seiscientos", 600),
     ("seiscientas", 600), ("setecientos", 700), ("setecientas", 700), ("ochocientos", 800),
     ("ochocientas", 800), ("novecientos", 900), ("novecientas", 900), ("mil", 1000),
     ("millón", 1000000), ("millon", 1000000), ("millones", 1000000)]
    ["y"]

end Phrasebook.Numeral.Lexicon
