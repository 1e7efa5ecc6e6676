/-
# Decimals as floats

A whole decimal becomes the nearest float.  Any other is computed in floating point: its whole and
its fractional part are converted on their own, added, and rounded to the decimal's places.
-/
import Fluent.Number.Decimal
import Fluent.Number.Binary

namespace Fluent

/-- The product of `result` and the `n`th power of `base`, by repeated squaring. -/
def floatPower (result base : Float) (n : Nat) : Float :=
  if h : n = 0 then result
  else floatPower (if n % 2 = 1 then result * base else result) (base * base) (n / 2)
termination_by n
decreasing_by omega

/-- The float that stands for a decimal. -/
def Decimal.toFloat (d : Decimal) : Float :=
  if d.scale = 0 then
    floatOfRatio d.negative d.mantissa 1
  else
    let unit := Nat.pow 10 d.scale
    let fraction := floatOfNat (d.mantissa % unit) / floatOfNat unit
    let whole := floatOfNat (d.mantissa / unit)
    let power := floatPower 1 10 d.scale
    let size := if fraction == 0 then whole else ((whole + fraction) * power).round / power
    if d.negative then -size else size

end Fluent
