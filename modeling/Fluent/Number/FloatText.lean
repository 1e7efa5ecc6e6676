/-
# Texts of floats

Two ways to write a float: with the fewest digits that read back to it, or with a fixed number of
places.  Both are positional, without an exponent, and both keep the sign of a negative zero.

* `readsBack_of_shortest?` : the shortest digits denote a number that rounds to the float;
* `Dyadic.fixed` rounds the exact binary value, a tie to the even digit.
-/
import Fluent.Number.Digits
import Fluent.Number.Binary

namespace Fluent

/-- The number `digits · 10 ^ exponent`. -/
structure Scaled where
  digits : Nat
  exponent : Int
deriving DecidableEq

namespace Dyadic

/-- A power of ten as a numerator and a denominator. -/
def powerOfTen (exponent : Int) : Nat × Nat :=
  if 0 ≤ exponent then (Nat.pow 10 exponent.toNat, 1) else (1, Nat.pow 10 (-exponent).toNat)

/-- The reals that round to a positive double lie between `low` and `high` quarter units around its
significand, ends included if the significand is even.  Below a power of two the gap is halved. -/
structure Interval where
  low : Nat
  high : Nat
  closed : Bool

/-- The interval of the reals that round to the number, in quarters of its unit. -/
def interval (d : Dyadic) : Interval :=
  let narrow := d.significand = 1 <<< 52 ∧ binary64.minExponent < d.exponent
  ⟨4 * d.significand - (if narrow then 1 else 2), 4 * d.significand + 2, d.significand % 2 = 0⟩

/-- The number `digits · 10 ^ exponent` rounds to `d`. -/
def readsBack (d : Dyadic) (s : Scaled) : Bool :=
  let quarter := (⟨1, d.exponent - 2⟩ : Dyadic).ratio
  let ten := powerOfTen s.exponent
  let value := s.digits * ten.1 * quarter.2
  let low := d.interval.low * quarter.1 * ten.2
  let high := d.interval.high * quarter.1 * ten.2
  if d.interval.closed then low ≤ value && value ≤ high else low < value && value < high

/-- The whole number of units `10 ^ exponent` below `d`, and whether `d` is nearer to it than to the
next one. -/
def below (d : Dyadic) (exponent : Int) : Nat × Bool :=
  let ten := powerOfTen exponent
  let num := d.ratio.1 * ten.2
  let den := d.ratio.2 * ten.1
  (num / den, 2 * (num % den) < den)

/-- The number on the grid of step `10 ^ exponent` that rounds to `d`: of the two neighbours of `d`
the nearer one that reads back, the upper one of two equally near. -/
def onGrid? (d : Dyadic) (exponent : Int) : Option Scaled :=
  let down : Scaled := ⟨(d.below exponent).1, exponent⟩
  let up : Scaled := ⟨(d.below exponent).1 + 1, exponent⟩
  if d.readsBack down && (!d.readsBack up || (d.below exponent).2) then some down
  else if d.readsBack up then some up
  else none

/-- An exponent of ten that exceeds the number. -/
def topExponent (d : Dyadic) : Int :=
  ((d.significand.log2 : Int) + 1 + d.exponent) * 30103 / 100000 + 1

/-- The fewest decimal digits that read back to a positive double: the coarsest grid that holds a
number that rounds to it. -/
def shortest? (d : Dyadic) : Option Scaled :=
  (List.range 20).findSome? fun (n : Nat) => d.onGrid? (d.topExponent - n)

/-- A candidate found at an exponent of ten rounds to the float. -/
theorem readsBack_of_onGrid? {d : Dyadic} {e : Int} {s : Scaled} (h : d.onGrid? e = some s) :
    d.readsBack s = true := by
  simp only [onGrid?] at h
  split at h
  · rename_i hd
    obtain rfl := Option.some.inj h
    simp only [Bool.and_eq_true] at hd
    exact hd.1
  · split at h
    · rename_i hu
      obtain rfl := Option.some.inj h
      exact hu
    · cases h

/-- The shortest digits denote a number that rounds to the double. -/
theorem readsBack_of_shortest? {d : Dyadic} {s : Scaled} (h : d.shortest? = some s) :
    d.readsBack s = true := by
  obtain ⟨n, -, hn⟩ := List.exists_of_findSome?_eq_some h
  exact readsBack_of_onGrid? hn

/-- The number times `10 ^ places`, rounded; a tie goes to the even digit. -/
def fixed (d : Dyadic) (places : Nat) : Nat :=
  roundHalfEven (d.ratio.1 * Nat.pow 10 places) d.ratio.2

end Dyadic

/-- A number in positional notation, with as many zeros as that takes. -/
def Scaled.text (s : Scaled) : List Char :=
  if 0 ≤ s.exponent then natDigits s.digits ++ List.replicate s.exponent.toNat '0'
  else pointed (-s.exponent).toNat (natDigits s.digits)

/-- The text of what is no finite number. -/
def nonFiniteText : FloatParts → List Char
  | .nan => ['N', 'a', 'N']
  | .infinite negative => (if negative then ['-'] else []) ++ ['i', 'n', 'f']
  | .finite .. => []

/-- The float with the fewest digits that read back to it. -/
def floatText (x : Float) : List Char :=
  match FloatParts.ofFloat x with
  | .finite negative size =>
    let digits := if size.significand = 0 then ['0'] else (size.shortest?.map Scaled.text).getD []
    (if negative then ['-'] else []) ++ digits
  | parts => nonFiniteText parts

/-- The float with the given number of digits behind the point. -/
def fixedFloatText (places : Nat) (x : Float) : List Char :=
  match FloatParts.ofFloat x with
  | .finite negative size =>
    (if negative then ['-'] else []) ++ pointed places (natDigits (size.fixed places))
  | parts => nonFiniteText parts

end Fluent
