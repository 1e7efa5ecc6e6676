/-
# Decimal digits

Reading and writing natural numbers in base ten, and placing a decimal point in a run of digits.

* `digitsValue_append` : reading is positional.
-/

namespace Fluent

/-- A text of digits only, at least one. -/
def allDigits (text : List Char) : Bool :=
  !text.isEmpty && text.all Char.isDigit

/-- The number that a digit stands for. -/
def digitValue (ch : Char) : Nat :=
  ch.toNat - '0'.toNat

/-- The number that a run of digits denotes; leading zeros count for nothing. -/
def digitsValue (digits : List Char) : Nat :=
  digits.foldl (fun n ch => 10 * n + digitValue ch) 0

/-- The digits of a number, without leading zeros. -/
def natDigits (n : Nat) : List Char :=
  (Nat.repr n).toList

/-- A run of digits with `places` digits behind the point, filled up with zeros on the left so that
a digit stands before the point; without places there is no point. -/
def pointed (places : Nat) (digits : List Char) : List Char :=
  let filled := List.replicate (places + 1 - digits.length) '0' ++ digits
  let whole := filled.take (filled.length - places)
  let fraction := filled.drop (filled.length - places)
  if places = 0 then whole else whole ++ '.' :: fraction

/-- Reading on from a number already read shifts it by the count of the digits that follow. -/
theorem foldl_digitValue (digits : List Char) (n : Nat) :
    digits.foldl (fun n ch => 10 * n + digitValue ch) n
      = n * Nat.pow 10 digits.length + digitsValue digits := by
  induction digits generalizing n with
  | nil => simp [digitsValue]
  | cons ch digits ih =>
    have hn := ih (10 * n + digitValue ch)
    have hz := ih (10 * 0 + digitValue ch)
    simp only [digitsValue, List.foldl_cons, List.length_cons] at hn hz ⊢
    have hten : 10 * n * Nat.pow 10 digits.length = n * Nat.pow 10 (digits.length + 1) := by
      show _ = n * (Nat.pow 10 digits.length * 10)
      rw [Nat.mul_comm 10 n, Nat.mul_assoc, Nat.mul_comm 10]
    rw [hn, hz, Nat.add_mul, Nat.add_mul]
    omega

/-- Reading is positional: digits in front weigh as many tens as digits follow. -/
theorem digitsValue_append (s t : List Char) :
    digitsValue (s ++ t) = digitsValue s * Nat.pow 10 t.length + digitsValue t := by
  simp only [digitsValue, List.foldl_append]
  exact foldl_digitValue t _

end Fluent
