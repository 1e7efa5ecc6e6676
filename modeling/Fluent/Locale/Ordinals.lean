/-
# Ordinal plural rules

Which categories languages have for places in an order.  Languages that share a rule stand together.
-/
import Fluent.Locale.PluralRule

namespace Fluent

open PluralTable

/-- The languages with rules for ordinal numbers, and their rules. -/
def ordinalRules : List (List String × PluralRule) :=
  [
    (["af", "am", "an", "ar", "bg", "bs", "ce", "cs", "da", "de", "dsb", "el", "es", "et", "eu",
      "fa", "fi", "fy", "gl", "gsw", "he", "hr", "hsb", "ia", "id", "in", "is", "iw", "ja", "km",
      "kn", "ko", "ky", "lt", "lv", "ml", "mn", "my", "nb", "nl", "pa", "pl", "prg", "ps", "pt",
      "ru", "sd", "sh", "si", "sk", "sl", "sr", "sw", "ta", "te", "th", "tr", "ur", "uz", "yue",
      "zh", "zu"], []),
    (["as", "bn"],
      [(.few, numberIs 4),
        (.many, numberIs 6),
        (.one, .number [1, 5, 7, 8, 9, 10]),
        (.two, .number [2, 3])]),
    (["az"],
      [(.few, (i % 10).among [3, 4] |||
          (i % 1000).among [100, 200, 300, 400, 500, 600, 700, 800, 900]),
        (.many, i.is 0 ||| (i % 10).is 6 ||| (i % 100).among [40, 60, 90]),
        (.one, (i % 10).among [1, 2, 5, 7, 8] ||| (i % 100).among [20, 50, 70, 80])]),
    (["be"],
      [(.few, (i % 10).among [2, 3] &&& ~~~(i % 100).among [12, 13])]),
    (["ca"],
      [(.few, numberIs 4),
        (.one, .number [1, 3]),
        (.two, numberIs 2)]),
    (["cy"],
      [(.few, .number [3, 4]),
        (.many, .number [5, 6]),
        (.one, numberIs 1),
        (.two, numberIs 2),
        (.zero, .number [0, 7, 8, 9])]),
    (["en"],
      [(.few, (i % 10).is 3 &&& (i % 100).isNot 13),
        (.one, (i % 10).is 1 &&& (i % 100).isNot 11),
        (.two, (i % 10).is 2 &&& (i % 100).isNot 12)]),
    (["fil", "fr", "ga", "hy", "lo", "mo", "ms", "ro", "tl", "vi"],
      [(.one, numberIs 1)]),
    (["gd"],
      [(.few, .number [3, 13]),
        (.one, .number [1, 11]),
        (.two, .number [2, 12])]),
    (["gu", "hi"],
      [(.few, numberIs 4),
        (.many, numberIs 6),
        (.one, numberIs 1),
        (.two, .number [2, 3])]),
    (["hu"],
      [(.one, .number [1, 5])]),
    (["it", "sc", "scn"],
      [(.many, .number [11, 8, 80, 800])]),
    (["ka"],
      [(.many, i.is 0 ||| (i % 100).among [40, 60, 80] ||| (i % 100).within 2 20),
        (.one, i.is 1)]),
    (["kk"],
      [(.many, (i % 10).among [6, 9] ||| (i % 10).is 0 &&& ~~~numberIs 0)]),
    (["kw"],
      [(.many, numberIs 5 ||| (i % 100).is 5),
        (.one, i.within 1 4 &&& f.is 0 ||| i.within 1 4 ||| i.within 21 24 ||| i.within 41 44 |||
          i.within 61 64 ||| i.within 81 84)]),
    (["mk"],
      [(.many, (i % 10).among [7, 8] &&& ~~~(i % 100).among [17, 18]),
        (.one, (i % 10).is 1 &&& (i % 100).isNot 11),
        (.two, (i % 10).is 2 &&& (i % 100).isNot 12)]),
    (["mr"],
      [(.few, numberIs 4),
        (.one, numberIs 1),
        (.two, .number [2, 3])]),
    (["ne"],
      [(.one, i.within 1 4 &&& f.is 0)]),
    (["or"],
      [(.few, numberIs 4),
        (.many, numberIs 6),
        (.one, .number [1, 5] ||| i.within 7 9 &&& f.is 0),
        (.two, .number [2, 3])]),
    (["sq"],
      [(.many, (i % 10).is 4 &&& (i % 100).isNot 14),
        (.one, numberIs 1)]),
    (["sv"],
      [(.one, (i % 10).among [1, 2] &&& ~~~(i % 100).among [11, 12])]),
    (["tk"],
      [(.few, (i % 10).among [6, 9] ||| numberIs 10)]),
    (["uk"],
      [(.few, (i % 10).is 3 &&& (i % 100).isNot 13)])
  ]

end Fluent
