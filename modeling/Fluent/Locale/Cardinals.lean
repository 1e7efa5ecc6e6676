/-
# Cardinal plural rules

Which categories languages have for counting things.  Languages that share a rule stand together.
-/
import Fluent.Locale.PluralRule

namespace Fluent

open PluralTable

/-- The languages with rules for cardinal numbers, and their rules. -/
def cardinalRules : List (List String × PluralRule) :=
  [
    (["af", "an", "asa", "az", "bem", "bez", "bg", "brx", "ce", "cgg", "chr", "ckb", "dv", "ee",
      "el", "eo", "es", "eu", "fo", "fur", "gsw", "ha", "haw", "hu", "jgo", "jmc", "ka", "kaj",
      "kcg", "kk", "kkj", "kl", "ks", "ksb", "ku", "ky", "lb", "lg", "mas", "mgo", "ml", "mn",
      "mr", "nah", "nb", "nd", "ne", "nn", "nnh", "no", "nr", "ny", "nyn", "om", "or", "os", "pap",
      "ps", "rm", "rof", "rwk", "saq", "sd", "sdh", "seh", "sn", "so", "sq", "ss", "ssy", "st",
      "syr", "ta", "te", "teo", "tig", "tk", "tn", "tr", "ts", "ug", "uz", "ve", "vo", "vun",
      "wae", "xh", "xog"],
      [(.one, numberIs 1)]),
    (["ak", "bho", "guw", "ln", "mg", "nso", "pa", "ti", "wa"],
      [(.one, i.within 0 1 &&& f.is 0)]),
    (["am", "as", "bn", "fa", "gu", "hi", "kn", "pcm", "zu"],
      [(.one, i.is 0 ||| numberIs 1)]),
    (["ar", "ars"],
      [(.few, i.within 3 10),
        (.many, i.within 11 99),
        (.one, numberIs 1),
        (.two, numberIs 2),
        (.zero, numberIs 0)]),
    (["ast", "ca", "de", "en", "et", "fi", "fy", "gl", "ia", "io", "it", "ji", "nl", "pt-PT", "sc",
      "scn", "sv", "sw", "ur", "yi"],
      [(.one, i.is 1 &&& v.is 0)]),
    (["be"],
      [(.few, i.within 2 4 &&& ~~~i.within 12 14),
        (.many, (i % 10).is 0 ||| i.within 5 9 ||| i.within 11 14),
        (.one, (i % 10).is 1 &&& (i % 100).isNot 11)]),
    (["bm", "bo", "dz", "id", "ig", "ii", "in", "ja", "jbo", "jv", "jw", "kde", "kea", "km", "ko",
      "lkt", "lo", "ms", "my", "nqo", "osa", "sah", "ses", "sg", "su", "th", "to", "vi", "wo",
      "yo", "yue", "zh"], []),
    (["br"],
      [(.few, ((i % 10).is 9 ||| i.within 3 4) &&& ~~~i.within 10 19 &&& ~~~i.within 70 79 &&&
          ~~~i.within 90 99),
        (.many, ~~~numberIs 0 &&& (i % 1000000).is 0),
        (.one, (i % 10).is 1 &&& ~~~(i % 100).among [11, 71, 91]),
        (.two, (i % 10).is 2 &&& ~~~(i % 100).among [12, 72, 92])]),
    (["bs", "hr", "sh", "sr"],
      [(.few, v.is 0 &&& (i % 10).within 2 4 &&& ~~~(i % 100).within 12 14 ||| (f % 10).within 2 4
          &&& ~~~(f % 100).within 12 14),
        (.one, v.is 0 &&& (i % 10).is 1 &&& (i % 100).isNot 11 ||| (f % 10).is 1 &&&
          (f % 100).isNot 11)]),
    (["ceb", "fil", "tl"],
      [(.one, v.is 0 &&& i.among [1, 2, 3] ||| v.is 0 &&& ~~~(i % 10).among [4, 6, 9] |||
          v.isNot 0 &&& ~~~(f % 10).among [4, 6, 9])]),
    (["cs", "sk"],
      [(.few, i.within 2 4 &&& v.is 0),
        (.many, v.isNot 0),
        (.one, i.is 1 &&& v.is 0)]),
    (["cy"],
      [(.few, numberIs 3),
        (.many, numberIs 6),
        (.one, numberIs 1),
        (.two, numberIs 2),
        (.zero, numberIs 0)]),
    (["da"],
      [(.one, numberIs 1 ||| t.isNot 0 &&& i.among [0, 1])]),
    (["dsb", "hsb"],
      [(.few, v.is 0 &&& (i % 100).within 3 4 ||| (f % 100).within 3 4),
        (.one, v.is 0 &&& (i % 100).is 1 ||| (f % 100).is 1),
        (.two, v.is 0 &&& (i % 100).is 2 ||| (f % 100).is 2)]),
    (["ff", "fr", "hy", "kab"],
      [(.one, i.among [0, 1])]),
    (["ga"],
      [(.few, i.within 3 6 &&& f.is 0),
        (.many, i.within 7 10 &&& f.is 0),
        (.one, numberIs 1),
        (.two, numberIs 2)]),
    (["gd"],
      [(.few, i.within 3 10 &&& f.is 0 ||| i.within 13 19 &&& f.is 0),
        (.one, .number [1, 11]),
        (.two, .number [2, 12])]),
    (["gv"],
      [(.few, v.is 0 &&& (i % 100).among [0, 20, 40, 60, 80]),
        (.many, v.isNot 0),
        (.one, v.is 0 &&& (i % 10).is 1),
        (.two, v.is 0 &&& (i % 10).is 2)]),
    (["he", "iw"],
      [(.many, v.is 0 &&& ~~~i.within 0 10 &&& f.is 0 &&& (i % 10).is 0),
        (.one, i.is 1 &&& v.is 0),
        (.two, i.is 2 &&& v.is 0)]),
    (["is"],
      [(.one, t.is 0 &&& (i % 10).is 1 &&& (i % 100).isNot 11 ||| t.isNot 0)]),
    (["iu", "naq", "sat", "se", "sma", "smi", "smj", "smn", "sms"],
      [(.one, numberIs 1),
        (.two, numberIs 2)]),
    (["ksh"],
      [(.one, numberIs 1),
        (.zero, numberIs 0)]),
    (["kw"],
      [(.few, (i % 100).among [3, 23, 43, 63, 83]),
        (.many, ~~~numberIs 1 &&& (i % 100).among [1, 21, 41, 61, 81]),
        (.one, numberIs 1),
        (.two, (i % 100).among [2, 22, 42, 62, 82] ||| (i % 1000).is 0 &&&
          ((i % 100000).among [40000, 60000, 80000] ||| i.within 1000 20000) ||| ~~~numberIs 0 &&&
          (i % 1000000).is 100000),
        (.zero, numberIs 0)]),
    (["lag"],
      [(.one, i.among [0, 1] &&& ~~~numberIs 0),
        (.zero, numberIs 0)]),
    (["lt"],
      [(.few, i.within 2 9 &&& ~~~i.within 11 19),
        (.many, f.isNot 0),
        (.one, (i % 10).is 1 &&& ~~~i.within 11 19)]),
    (["lv", "prg"],
      [(.one, (i % 10).is 1 &&& (i % 100).isNot 11 ||| v.is 2 &&& (f % 10).is 1 &&&
          (f % 100).isNot 11 ||| v.isNot 2 &&& (f % 10).is 1),
        (.zero, (i % 10).is 0 ||| i.within 11 19 ||| v.is 2 &&& (f % 100).within 11 19)]),
    (["mk"],
      [(.one, v.is 0 &&& (i % 10).is 1 &&& (i % 100).isNot 11 ||| (f % 10).is 1 &&&
          (f % 100).isNot 11)]),
    (["mo", "ro"],
      [(.few, v.isNot 0 ||| numberIs 0 ||| i.within 2 19),
        (.one, i.is 1 &&& v.is 0)]),
    (["mt"],
      [(.few, numberIs 0 ||| i.within 2 10),
        (.many, i.within 11 19),
        (.one, numberIs 1)]),
    (["pl"],
      [(.few, v.is 0 &&& (i % 10).within 2 4 &&& ~~~(i % 100).within 12 14),
        (.many, v.is 0 &&& i.isNot 1 &&& (i % 10).within 0 1 ||| v.is 0 &&& (i % 10).within 5 9 |||
          v.is 0 &&& (i % 100).within 12 14),
        (.one, i.is 1 &&& v.is 0)]),
    (["pt"],
      [(.one, i.within 0 1)]),
    (["ru", "uk"],
      [(.few, v.is 0 &&& (i % 10).within 2 4 &&& ~~~(i % 100).within 12 14),
        (.many, v.is 0 &&& (i % 10).is 0 ||| v.is 0 &&& (i % 10).within 5 9 ||| v.is 0 &&&
          (i % 100).within 11 14),
        (.one, v.is 0 &&& (i % 10).is 1 &&& (i % 100).isNot 11)]),
    (["shi"],
      [(.few, i.within 2 10 &&& f.is 0),
        (.one, i.is 0 ||| numberIs 1)]),
    (["si"],
      [(.one, .number [0, 1] ||| i.is 0 &&& f.is 1)]),
    (["sl"],
      [(.few, v.is 0 &&& (i % 100).within 3 4 ||| v.isNot 0),
        (.one, v.is 0 &&& (i % 100).is 1),
        (.two, v.is 0 &&& (i % 100).is 2)]),
    (["tzm"],
      [(.one, i.within 0 1 &&& f.is 0 ||| i.within 11 99 &&& f.is 0)])
  ]

end Fluent
