/-
# Hexadecimal digits

Runs of hexadecimal digits and the characters that they name.
-/

namespace Fluent

/-- A hexadecimal digit. -/
def isHexDigit (ch : Char) : Bool :=
  ch.isDigit || ('a' ≤ ch && ch ≤ 'f') || ('A' ≤ ch && ch ≤ 'F')

/-- The number that a hexadecimal digit stands for. -/
def hexDigitValue (ch : Char) : Nat :=
  if ch.isDigit then ch.toNat - '0'.toNat
  else if 'a' ≤ ch then ch.toNat - 'a'.toNat + 10
  else ch.toNat - 'A'.toNat + 10

/-- The number that a run of hexadecimal digits denotes. -/
def hexValue (run : List Char) : Nat :=
  run.foldl (fun n ch => 16 * n + hexDigitValue ch) 0

/-- The character of a code point; surrogates and numbers above 10FFFF have none. -/
def charOfCodePoint? (n : Nat) : Option Char :=
  if h : n.isValidChar then some (Char.ofNatAux n h) else none

end Fluent
