/-
# Operands of plural rules

Plural rules look at a number as it is written: at its value, at the digits before and behind the
point, and at how many of those there are.
-/
import Fluent.Number.Digits
import Fluent.Number.FloatReader
import Fluent.Number.Binary

namespace Fluent

/-- What a plural rule sees of a number; `n`, `i`, `v`, `f` and `t` in the rules as published. -/
structure Operands where
  /-- The number without its sign. -/
  magnitude : Float
  /-- The digits before the point. -/
  whole : Nat
  /-- How many digits stand behind the point. -/
  places : Nat
  /-- The digits behind the point. -/
  fraction : Nat
  /-- The digits behind the point without zeros at their end. -/
  shortFraction : Nat

namespace Operands

/-- The number below which the digits before and behind the point must stay. -/
def limit : Nat := UInt64.size

/-- The number that digits denote, if there are any and it stays below the limit. -/
def digits? (text : List Char) : Option Nat :=
  if !text.isEmpty && text.all Char.isDigit && digitsValue text < limit then
    some (digitsValue text)
  else
    none

/-- Digits without the zeros at their end. -/
def withoutEndingZeros (text : List Char) : List Char :=
  (text.reverse.dropWhile (· = '0')).reverse

/-- A float towards zero, the greatest number below the limit if it is too great. -/
def truncate (x : Float) : Nat :=
  match FloatParts.ofFloat x with
  | .nan => 0
  | .infinite negative => if negative then 0 else limit - 1
  | .finite negative d =>
    if negative then 0 else min (d.ratio.1 / d.ratio.2) (limit - 1)

/-- The operands of a number's text. -/
def ofText? (text : List Char) : Option Operands := do
  let unsigned := if text.head? = some '-' then text.tail else text
  let magnitude ← readFloat? unsigned
  let whole := unsigned.takeWhile (· != '.')
  match unsigned.dropWhile (· != '.') with
  | [] => return ⟨magnitude, truncate magnitude, 0, 0, 0⟩
  | _ :: fraction =>
    return ⟨magnitude, ← digits? whole, fraction.length, ← digits? fraction,
      (digits? (withoutEndingZeros fraction)).getD 0⟩

end Operands

end Fluent
