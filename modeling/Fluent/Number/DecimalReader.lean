/-
# Reading decimals freely

Besides the exact reading of digits, a decimal may be given as a text with a sign, underscores
between the digits, and an exponent, or as a number of a document.  Digits behind the point that do
not fit are rounded away, a half upwards; digits before the point that do not fit are refused.

* `RawDecimal.Denotes` : what was given denotes a decimal.
-/
import Fluent.Number.Decimal
import Fluent.Number.FloatReader

namespace Fluent

/-- The number `± mantissa / 10 ^ scale` as it was given; zero may carry a sign. -/
structure RawDecimal where
  negative : Bool := false
  mantissa : Nat
  scale : Nat
deriving DecidableEq

namespace RawDecimal

/-- The text of what was given. -/
def text (d : RawDecimal) : List Char :=
  (if d.negative then ['-'] else []) ++ pointed d.scale (natDigits d.mantissa)

/-- The same number as a decimal, whatever the scales. -/
def Denotes (d : RawDecimal) (value : Decimal) : Prop :=
  (d.negative && d.mantissa != 0) = value.negative ∧
    d.mantissa * Nat.pow 10 value.scale = value.mantissa * Nat.pow 10 d.scale

instance (d : RawDecimal) (value : Decimal) : Decidable (d.Denotes value) :=
  inferInstanceAs (Decidable (_ ∧ _))

/-- A decimal, given as it is. -/
def ofDecimal (value : Decimal) : RawDecimal :=
  ⟨value.negative, value.mantissa, value.scale⟩

/-- The exact form of a decimal denotes that decimal. -/
theorem denotes_ofDecimal (value : Decimal) : (ofDecimal value).Denotes value := by
  refine ⟨?_, rfl⟩
  cases h : value.negative with
  | false => simp [ofDecimal, h]
  | true =>
    have : value.mantissa ≠ 0 := fun hz => by simp [value.unsigned_zero hz] at h
    simp [ofDecimal, h, this]

/-! ## Digits -/

/-- The digits end before the given digit: they are rounded by it, and if that fills the mantissa,
once more to one digit less. -/
def roundBy? (d : RawDecimal) (next : Char) : Option RawDecimal :=
  if digitValue next < 5 then some d
  else if d.mantissa + 1 < 1 <<< 96 then some { d with mantissa := d.mantissa + 1 }
  else if d.scale = 0 then none
  else some { d with mantissa := (d.mantissa + 5) / 10, scale := d.scale - 1 }

/-- Nothing but digits and underscores, which may follow the digits that count. -/
def isSurplus (text : List Char) : Bool :=
  text.all fun ch => ch.isDigit || ch = '_'

/-- The mantissa without its last digit is so short that an underscore behind the 28th place ends
the digits that count. -/
def isShort (d : RawDecimal) : Bool :=
  d.mantissa / 10 < (UInt64.size - 1) / 10 - 255

/-- The digits of a text with an optional point and underscores after the first digit. -/
def ofDigits? (behindPoint hasDigit : Bool) (d : RawDecimal) : List Char → Option RawDecimal
  | [] => if hasDigit then some d else none
  | ch :: text =>
    if ch.isDigit then
      let mantissa := 10 * d.mantissa + digitValue ch
      if 1 <<< 96 ≤ mantissa || d.scale = 28 then
        if behindPoint && isSurplus text then d.roundBy? ch else none
      else
        ofDigits? behindPoint true
          { d with mantissa := mantissa, scale := d.scale + behindPoint.toNat } text
    else if ch = '.' && !behindPoint then ofDigits? true hasDigit d text
    else if ch = '_' && hasDigit then
      if d.scale = 28 && d.isShort then
        if isSurplus text then some d else none
      else ofDigits? behindPoint hasDigit d text
    else none

/-- The decimal that a text without an exponent denotes; zero drops its sign. -/
def ofPlain? (text : List Char) : Option RawDecimal :=
  let (negative, body) := splitSign text
  (ofDigits? false false ⟨false, 0, 0⟩ body).map fun d =>
    { d with negative := negative && d.mantissa != 0 }

/-! ## Exponents -/

/-- The number with at most 28 digits behind the point, a half rounded away from zero. -/
def limitScale (d : RawDecimal) : RawDecimal :=
  if d.scale ≤ 28 then d
  else
    let unit := Nat.pow 10 (d.scale - 28)
    { d with mantissa := (d.mantissa + unit / 2) / unit, scale := 28 }

/-- The number divided by a power of ten. -/
def shiftDown? (d : RawDecimal) (exponent : Nat) : Option RawDecimal :=
  if exponent ≤ 28 then some (limitScale { d with scale := d.scale + exponent }) else none

/-- The number times a power of ten.  What thereby becomes whole must fit the mantissa. -/
def shiftUp? (d : RawDecimal) (exponent : Nat) : Option RawDecimal :=
  if exponent ≤ d.scale then some { d with scale := d.scale - exponent }
  else
    let mantissa := d.mantissa * Nat.pow 10 (exponent - d.scale)
    if exponent ≤ 28 ∧ mantissa < 1 <<< 96 then some { d with mantissa := mantissa, scale := 0 }
    else none

/-- The digits of an exponent, behind an optional plus sign; they stay below 2^32. -/
def readExponentDigits? (text : List Char) : Option Nat :=
  let digits := if text.head? = some '+' then text.tail else text
  if !digits.isEmpty && digits.all Char.isDigit && digitsValue digits < UInt32.size then
    some (digitsValue digits)
  else
    none

/-- The decimal that a text with an exponent denotes. -/
def ofScientific? (text : List Char) : Option RawDecimal := do
  let isMark (ch : Char) : Bool := ch = 'e' || ch = 'E'
  let base ← ofPlain? (text.takeWhile (!isMark ·))
  match ← (text.dropWhile (!isMark ·)).tail? with
  | '-' :: digits => base.shiftDown? (← readExponentDigits? digits)
  | digits => base.shiftUp? (← readExponentDigits? digits)

/-- The decimal that a text denotes, with or without an exponent. -/
def read? (text : List Char) : Option RawDecimal :=
  ofPlain? text <|> ofScientific? text

/-- The decimal that is an integer of 64 bits. -/
def ofInt (n : Int) : RawDecimal :=
  ⟨n < 0, n.natAbs, 0⟩

end RawDecimal

end Fluent
