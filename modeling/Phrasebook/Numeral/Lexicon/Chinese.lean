import Phrasebook.Numeral.Lexicon

/-! Chinese number words: plain, formal and traditional characters. -/

set_option autoImplicit false

namespace Phrasebook.Numeral.Lexicon

def chinese : Lexicon :=
  ofWords .chinese
    [("零", 0), ("〇", 0), ("一", 1), ("幺", 1), ("壹", 1), ("二", 2), ("两", 2), ("兩", 2), ("贰", 2),
     ("三", 3), ("叁", 3), ("四", 4), ("肆", 4), ("五", 5), ("伍", 5), ("六", 6), ("陆", 6), ("七", 7),
     ("柒", 7), ("八", 8), ("捌", 8), ("九", 9), ("玖", 9), ("十", 10), ("拾", 10), ("百", 100),
     ("佰", 100), ("千", 1000), ("仟", 1000), ("万", 10000), ("萬", 10000), ("亿", 100000000),
     ("億", 100000000), ("兆", 1000000000000)]
    []

end Phrasebook.Numeral.Lexicon
