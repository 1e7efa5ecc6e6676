/-
# White space

The characters with the Unicode property `White_Space`, and trimming texts of them.
-/

namespace Fluent

/-- The ranges of the Unicode property `White_Space`. -/
def whiteSpaceRanges : List (Nat × Nat) :=
  [(0x9, 0xD), (0x20, 0x20), (0x85, 0x85), (0xA0, 0xA0), (0x1680, 0x1680), (0x2000, 0x200A),
    (0x2028, 0x2029), (0x202F, 0x202F), (0x205F, 0x205F), (0x3000, 0x3000)]

/-- A character is white space. -/
def isWhiteSpace (ch : Char) : Bool :=
  whiteSpaceRanges.any fun (low, high) => low ≤ ch.toNat && ch.toNat ≤ high

/-- A text without the white space at its ends. -/
def trimWhiteSpace (text : List Char) : List Char :=
  ((text.dropWhile isWhiteSpace).reverse.dropWhile isWhiteSpace).reverse

end Fluent
