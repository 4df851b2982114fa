import Phrasebook.Numeral.Lexicon

/-! Japanese number words: characters, formal characters and hiragana readings. -/

set_option autoImplicit false

namespace Phrasebook.Numeral.Lexicon

def japanese : Lexicon :=
  ofWords .japanese
    [("〇", 0), ("零", 0), ("一", 1), ("二", 2), ("三", 3), ("四", 4), ("五", 5), ("六", 6), ("七", 7),
     ("八", 8), ("九", 9), ("十", 10), ("百", 100), ("千", 1000), ("万", 10000), ("億", 100000000),
     ("兆", 1000000000000), ("壱", 1), ("弐", 2), ("参", 3), ("拾", 10), ("ぜろ", 0), ("れい", 0),
     ("いち", 1), ("に", 2), ("さん", 3), ("よん", 4), ("し", 4), ("ご", 5), ("ろく", 6), ("なな", 7),
     ("しち", 7), ("はち", 8), ("きゅう", 9), ("く", 9), ("じゅう", 10), ("ひゃく", 100), ("びゃく", 100),
     ("ぴゃく", 100), ("さんびゃく", 300), ("ろっぴゃく", 600), ("はっぴゃく", 800), ("せん", 1000), ("ぜん", 1000),
     ("さんぜん", 3000), ("はっせん", 8000), ("まん", 10000), ("おく", 100000000), ("ちょう", 1000000000000)]
    []

end Phrasebook.Numeral.Lexicon
