/-
# Decimal numbers

A decimal is a mantissa below 2^96 with up to 28 digits behind the point and a sign; zero carries
no sign.  Written digits are read exactly or not at all, and a decimal is written back with the
digits behind the point that it was read with.

* `ofDigits_eq_ok_iff` : which digits are read, and as which decimal.
-/
import Fluent.Number.Digits

namespace Fluent

/-- A number `± mantissa / 10 ^ scale`. -/
structure Decimal where
  mantissa : Nat
  scale : Nat
  negative : Bool
  mantissa_lt : mantissa < 1 <<< 96
  scale_le : scale ≤ 28
  unsigned_zero : mantissa = 0 → negative = false
deriving DecidableEq

/-- Why written digits are no decimal. -/
inductive DecimalError
  | tooManyDigits
  | tooPrecise
deriving DecidableEq

/-- The wording of a decimal's failure. -/
def DecimalError.message : DecimalError → String
  | .tooManyDigits => "Invalid decimal: overflow from too many digits"
  | .tooPrecise => "Number has a high precision that can not be represented."

namespace Decimal

/-- The decimal with the given parts, if they are in range; zero drops its sign. -/
def ofParts? (negative : Bool) (mantissa scale : Nat) : Option Decimal :=
  if h : mantissa < 1 <<< 96 ∧ scale ≤ 28 then
    some ⟨mantissa, scale, negative && mantissa != 0, h.1, h.2, by simp +contextual⟩
  else
    none

/-- The decimal that the digits before and behind a point denote.  Digits before the point may fill
the mantissa; behind it neither the mantissa nor the 28 places may be exceeded. -/
def ofDigits (negative : Bool) (whole fraction : List Char) : Except DecimalError Decimal :=
  if 1 <<< 96 ≤ digitsValue whole then
    .error .tooManyDigits
  else
    match ofParts? negative (digitsValue (whole ++ fraction)) fraction.length with
    | some value => .ok value
    | none => .error .tooPrecise

/-- The decimal's text: sign, digits, and as many digits behind the point as its scale says. -/
def text (d : Decimal) : List Char :=
  (if d.negative then ['-'] else []) ++ pointed d.scale (natDigits d.mantissa)

/-- The parts give a decimal exactly when one has this mantissa and this scale; a zero has no
sign. -/
theorem ofParts?_eq_some_iff {negative : Bool} {mantissa scale : Nat} {d : Decimal} :
    ofParts? negative mantissa scale = some d ↔
      d.mantissa = mantissa ∧ d.scale = scale ∧ d.negative = (negative && mantissa != 0) := by
  unfold ofParts?
  constructor
  · intro h
    split at h
    · obtain rfl := Option.some.inj h
      exact ⟨rfl, rfl, rfl⟩
    · cases h
  · rintro ⟨rfl, rfl, hn⟩
    rw [dif_pos ⟨d.mantissa_lt, d.scale_le⟩]
    cases d
    simp_all

/-- Digits are read exactly when all of them together fit the mantissa and at most 28 stand behind
the point, and the decimal then has just those digits. -/
theorem ofDigits_eq_ok_iff {negative : Bool} {whole fraction : List Char} {d : Decimal} :
    ofDigits negative whole fraction = .ok d ↔
      digitsValue whole < 1 <<< 96 ∧ d.mantissa = digitsValue (whole ++ fraction) ∧
        d.scale = fraction.length ∧
        d.negative = (negative && digitsValue (whole ++ fraction) != 0) := by
  unfold ofDigits
  split
  · constructor
    · intro h
      cases h
    · intro h
      omega
  · have hw : digitsValue whole < 1 <<< 96 := by omega
    constructor
    · intro h
      split at h
      · rename_i value hv
        obtain rfl := Except.ok.inj h
        exact ⟨hw, ofParts?_eq_some_iff.1 hv⟩
      · cases h
    · rintro ⟨-, hd⟩
      rw [ofParts?_eq_some_iff.2 hd]

end Decimal

end Fluent
