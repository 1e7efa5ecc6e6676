/-
# Texts with escapes

A text up to its closing quote, in which a backslash starts an escape.  Which escapes there are, and
which characters may stand for themselves, is told by a table.
-/
import Fluent.Text.Hex

namespace Fluent

/-- The escapes of a notation. -/
structure EscapeTable where
  /-- Letters that stand for one character. -/
  letters : List (Char × Char)
  /-- Letters that are followed by the given number of hexadecimal digits. -/
  codes : List (Char × Nat)
  /-- The characters that may stand for themselves. -/
  allows : Char → Bool

/-- A piece of a text with escapes: a character, or a number given by digits. -/
inductive TextUnit
  | char (ch : Char)
  | code (n : Nat)
deriving DecidableEq

namespace EscapeTable

/-- What a letter behind a backslash, and the text behind it, mean; the number tells how many
characters of that text belong to the escape. -/
def escape? (table : EscapeTable) (letter : Char) (text : List Char) : Option (TextUnit × Nat) :=
  match table.letters.lookup letter with
  | some ch => some (.char ch, 0)
  | none =>
    match table.codes.lookup letter with
    | some count =>
      let digits := text.take count
      if digits.length = count && digits.all isHexDigit then some (.code (hexValue digits), count)
      else none
    | none => none

/-- The pieces up to the closing quote, and what follows it. -/
def units? (table : EscapeTable) : List Char → Option (List TextUnit × List Char)
  | [] => none
  | ch :: text =>
    if ch = '"' then some ([], text)
    else if ch = '\\' then
      match text with
      | [] => none
      | letter :: text =>
        match table.escape? letter text with
        | some (unit, count) =>
          (table.units? (text.drop count)).map fun (units, rest) => (unit :: units, rest)
        | none => none
    else if table.allows ch then
      (table.units? text).map fun (units, rest) => (.char ch :: units, rest)
    else none
termination_by text => text.length
decreasing_by
  · simp only [List.length_drop, List.length_cons]
    omega
  · simp

end EscapeTable

/-! ## Characters of pieces -/

/-- The number is the first half of a surrogate pair. -/
def isHighSurrogate (n : Nat) : Bool :=
  0xD800 ≤ n && n < 0xDC00

/-- The number is the second half of a surrogate pair. -/
def isLowSurrogate (n : Nat) : Bool :=
  0xDC00 ≤ n && n < 0xE000

/-- The characters of pieces.  Two numbers in a row that are the halves of a surrogate pair give one
character; other halves give none. -/
def textOfUnits? : List TextUnit → Option (List Char)
  | [] => some []
  | .char ch :: units => (textOfUnits? units).map (ch :: ·)
  | .code high :: .code low :: units =>
    if isHighSurrogate high && isLowSurrogate low then do
      let ch ← charOfCodePoint? (0x10000 + 0x400 * (high - 0xD800) + (low - 0xDC00))
      return ch :: (← textOfUnits? units)
    else do
      let ch ← charOfCodePoint? high
      return ch :: (← textOfUnits? (.code low :: units))
  | .code n :: units => do
    let ch ← charOfCodePoint? n
    return ch :: (← textOfUnits? units)

end Fluent
