/-
# Floats of long digits

A float made from more digits than 64 bits hold: the digits that fit are taken exactly, those behind
them count as powers of ten only, and what is taken is multiplied or divided in floating point.
-/
import Fluent.Number.Binary

namespace Fluent

/-- The leading digits of a number that stay below 2^64, and how many digits follow them. -/
def leadingDigits (n : Nat) (dropped : Nat) : Nat × Nat :=
  if h : n < 1 <<< 64 then (n, dropped) else leadingDigits (n / 10) (dropped + 1)
termination_by n
decreasing_by omega

/-- The float that stands for `± digits · 10 ^ exponent`. -/
def floatOfDigits (negative : Bool) (digits : Nat) (exponent : Int) : Float :=
  let (leading, dropped) := leadingDigits digits 0
  let exponent := exponent + dropped
  let power := floatOfNat (Nat.pow 10 exponent.natAbs)
  let size := if 0 ≤ exponent then floatOfNat leading * power else floatOfNat leading / power
  if negative then -size else size

end Fluent
