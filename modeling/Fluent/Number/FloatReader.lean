/-
# Reading floats

A float is written as digits with an optional point and an optional exponent, or as one of the
words `inf`, `infinity` and `nan` in any case, each with an optional sign.  The float read is the
one nearest to the number written.
-/
import Fluent.Number.Digits
import Fluent.Number.Binary

namespace Fluent

/-- An optional sign and what follows it. -/
def splitSign : List Char → Bool × List Char
  | '-' :: text => (true, text)
  | '+' :: text => (false, text)
  | text => (false, text)

/-- The number `± digits · 10 ^ exponent` as it was written. -/
structure WrittenFloat where
  digits : Nat
  exponent : Int
deriving DecidableEq

/-- A written exponent: nothing, or a mark, an optional sign and digits up to the end. -/
def readExponent? : List Char → Option Int
  | [] => some 0
  | mark :: text =>
    let (negative, digits) := splitSign text
    if (mark = 'e' || mark = 'E') && !digits.isEmpty && digits.all Char.isDigit then
      some (if negative then -(digitsValue digits : Int) else digitsValue digits)
    else
      none

/-- Digits with at least one of them around an optional point, and an optional exponent. -/
def readWritten? (text : List Char) : Option WrittenFloat :=
  let whole := text.takeWhile Char.isDigit
  let rest := text.dropWhile Char.isDigit
  let fraction := if rest.head? = some '.' then rest.tail.takeWhile Char.isDigit else []
  let rest := if rest.head? = some '.' then rest.tail.dropWhile Char.isDigit else rest
  if (whole ++ fraction).isEmpty then
    none
  else
    (readExponent? rest).map fun exponent =>
      ⟨digitsValue (whole ++ fraction), exponent - fraction.length⟩

/-- The float nearest to a written number, by a rounding that takes a sign and a fraction.  A number
beyond 10 ^ 400 or below 10 ^ -400 rounds as these do, whatever its exponent. -/
def WrittenFloat.round (rounding : Bool → Nat → Nat → Float) (negative : Bool)
    (w : WrittenFloat) : Float :=
  let top := w.exponent + (natDigits w.digits).length
  if w.digits = 0 || top < -400 then rounding negative 0 1
  else if 400 < top then rounding negative (Nat.pow 10 400) 1
  else if 0 ≤ w.exponent then rounding negative (w.digits * Nat.pow 10 w.exponent.toNat) 1
  else rounding negative w.digits (Nat.pow 10 (-w.exponent).toNat)

/-- The float that a text denotes, none if it denotes none. -/
def readFloatBy? (rounding : Bool → Nat → Nat → Float) (text : List Char) : Option Float :=
  let (negative, body) := splitSign text
  match readWritten? body with
  | some written => some (written.round rounding negative)
  | none =>
    let word := String.ofList (body.map Char.toLower)
    if word = "inf" || word = "infinity" then some (infiniteFloat negative)
    else if word = "nan" then some nanFloat
    else none

/-- The double that a text denotes. -/
def readFloat? (text : List Char) : Option Float :=
  readFloatBy? floatOfRatio text

/-- The single that a text denotes, as a double. -/
def readSingle? (text : List Char) : Option Float :=
  readFloatBy? floatOfSingle text

end Fluent
