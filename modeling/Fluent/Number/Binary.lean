/-
# Binary floating point numbers

A finite floating point number is `± significand · 2 ^ exponent`.  This file takes floats apart,
puts them together, and rounds exact fractions to the nearest number of a binary format, a tie to
the even significand.

* `two_mul_le_roundHalfEven`, `two_mul_roundHalfEven_le` : the rounded quotient is within half a
  unit;
* `roundHalfEven_tie` : an exact half goes to the even neighbour;
* `BinaryFormat.round?` : the nearest number of a format, or none if it is too large.
-/

namespace Fluent

/-- The nearest natural number to `num / den`; an exact half goes to the even neighbour. -/
def roundHalfEven (num den : Nat) : Nat :=
  if 2 * (num % den) < den then num / den
  else if den < 2 * (num % den) then num / den + 1
  else num / den + num / den % 2

/-- The rounded quotient is at most half a unit below the exact one. -/
theorem two_mul_le_roundHalfEven (num : Nat) {den : Nat} (h : 0 < den) :
    2 * num ≤ 2 * (roundHalfEven num den * den) + den := by
  have hd := Nat.div_add_mod num den
  have hm := Nat.mod_lt num h
  have hc : den * (num / den) = num / den * den := Nat.mul_comm ..
  unfold roundHalfEven
  split
  · omega
  · split
    · rw [Nat.add_mul]
      omega
    · rw [Nat.add_mul]
      have : 0 ≤ num / den % 2 * den := Nat.zero_le _
      omega

/-- The rounded quotient is at most half a unit above the exact one. -/
theorem two_mul_roundHalfEven_le (num : Nat) {den : Nat} (h : 0 < den) :
    2 * (roundHalfEven num den * den) ≤ 2 * num + den := by
  have hd := Nat.div_add_mod num den
  have hm := Nat.mod_lt num h
  have hc : den * (num / den) = num / den * den := Nat.mul_comm ..
  unfold roundHalfEven
  split
  · omega
  · split
    · rw [Nat.add_mul]
      omega
    · rw [Nat.add_mul]
      rcases Nat.mod_two_eq_zero_or_one (num / den) with hp | hp <;> rw [hp] <;> omega

/-- An exact half goes to the even neighbour. -/
theorem roundHalfEven_tie {num den : Nat} (h : 2 * (num % den) = den) :
    roundHalfEven num den % 2 = 0 := by
  unfold roundHalfEven
  rw [if_neg (by omega), if_neg (by omega)]
  omega

/-! ## Taking numbers apart and putting them together -/

/-- The number `significand · 2 ^ exponent`. -/
structure Dyadic where
  significand : Nat
  exponent : Int
deriving DecidableEq

/-- What a float stands for. -/
inductive FloatParts
  | nan
  | infinite (negative : Bool)
  | finite (negative : Bool) (size : Dyadic)
deriving DecidableEq

/-- The parts of a float, read off its bits. -/
def FloatParts.ofFloat (x : Float) : FloatParts :=
  let bits := x.toBits.toNat
  let negative : Bool := 1 <<< 63 ≤ bits
  let field : Nat := (bits >>> 52) % (1 <<< 11)
  let fraction := bits % (1 <<< 52)
  if field = 2047 then
    if fraction = 0 then .infinite negative else .nan
  else if field = 0 then .finite negative ⟨fraction, -1074⟩
  else .finite negative ⟨1 <<< 52 + fraction, (field : Int) - 1075⟩

/-- The numerator and the denominator of `significand · 2 ^ exponent`. -/
def Dyadic.ratio (d : Dyadic) : Nat × Nat :=
  if 0 ≤ d.exponent then (d.significand <<< d.exponent.toNat, 1)
  else (d.significand, 1 <<< (-d.exponent).toNat)

/-! ## Rounding to a binary format -/

/-- A binary format: how many bits a significand has, and the exponents of the smallest and of the
largest unit. -/
structure BinaryFormat where
  precision : Nat
  minExponent : Int
  maxExponent : Int

/-- Double precision. -/
def binary64 : BinaryFormat := ⟨53, -1074, 971⟩

/-- Single precision. -/
def binary32 : BinaryFormat := ⟨24, -149, 104⟩

/-- The quotient of `num` by `den · 2 ^ exponent`, rounded. -/
def roundAt (num den : Nat) (exponent : Int) : Nat :=
  if 0 ≤ exponent then roundHalfEven num (den <<< exponent.toNat)
  else roundHalfEven (num <<< (-exponent).toNat) den

/-- The number of the format nearest to `num / den`, none if it lies beyond the format's largest. -/
def BinaryFormat.round? (format : BinaryFormat) (num den : Nat) : Option Dyadic :=
  let size : Int := (num.log2 : Int) - den.log2
  let coarse := size + 1 - format.precision
  let fits := roundAt num den (coarse - 1) < 1 <<< format.precision
  let exponent := max format.minExponent (if fits then coarse - 1 else coarse)
  let significand := roundAt num den exponent
  let rounded : Dyadic :=
    if significand < 1 <<< format.precision then ⟨significand, exponent⟩
    else ⟨1 <<< (format.precision - 1), exponent + 1⟩
  if rounded.exponent ≤ format.maxExponent then some rounded else none

/-- The float with the given bits below the sign bit. -/
def floatOfMagnitude (negative : Bool) (magnitude : Nat) : Float :=
  Float.ofBits (UInt64.ofNat ((if negative then 1 <<< 63 else 0) + magnitude))

/-- Infinity of the given sign. -/
def infiniteFloat (negative : Bool) : Float :=
  floatOfMagnitude negative (2047 <<< 52)

/-- The float that is no number. -/
def nanFloat : Float :=
  floatOfMagnitude false (2047 <<< 52 + 1 <<< 51)

/-- The float with the given sign and the number of double precision nearest to `num / den`;
infinite if that is too large. -/
def floatOfRatio (negative : Bool) (num den : Nat) : Float :=
  match binary64.round? num den with
  | none => infiniteFloat negative
  | some ⟨significand, exponent⟩ =>
    floatOfMagnitude negative <|
      if significand < 1 <<< 52 then significand
      else (exponent + 1075).toNat <<< 52 + (significand - 1 <<< 52)

/-- The float nearest to a natural number. -/
def floatOfNat (n : Nat) : Float :=
  floatOfRatio false n 1

/-- The float nearest to an integer. -/
def floatOfInt (n : Int) : Float :=
  floatOfRatio (n < 0) n.natAbs 1

/-- The float whose value is the number of single precision nearest to `num / den`. -/
def floatOfSingle (negative : Bool) (num den : Nat) : Float :=
  match binary32.round? num den with
  | none => infiniteFloat negative
  | some single => floatOfRatio negative single.ratio.1 single.ratio.2

end Fluent
