/-
# Plural rules

A plural rule puts a number into one of six categories.  It is a list of categories with conditions
on the number's operands; the first condition that holds decides, and `other` is left if none does.
-/
import Fluent.Locale.Operands

namespace Fluent

/-- The categories of plural rules. -/
inductive PluralCategory
  | zero
  | one
  | two
  | few
  | many
  | other
deriving DecidableEq

/-- The variant key that a category selects. -/
def PluralCategory.key : PluralCategory → String
  | .zero => "zero"
  | .one => "one"
  | .two => "two"
  | .few => "few"
  | .many => "many"
  | .other => "other"

/-- The operands that conditions look at besides the number itself. -/
inductive Operand
  | whole
  | places
  | fraction
  | shortFraction
deriving DecidableEq

/-- An operand's value. -/
def Operand.value (operands : Operands) : Operand → Nat
  | .whole => operands.whole
  | .places => operands.places
  | .fraction => operands.fraction
  | .shortFraction => operands.shortFraction

/-- An operand, or its last digits: the remainder by a modulus. -/
structure Measure where
  operand : Operand
  modulus : Option Nat := none
deriving DecidableEq

/-- The value of a measure. -/
def Measure.value (operands : Operands) (m : Measure) : Nat :=
  match m.modulus with
  | none => m.operand.value operands
  | some modulus => m.operand.value operands % modulus

/-- A condition on a number. -/
inductive Condition
  /-- The number is one of the given. -/
  | number (values : List Nat)
  /-- The measure is one of the given. -/
  | among (measure : Measure) (values : List Nat)
  /-- The measure lies between the given bounds, these included. -/
  | within (measure : Measure) (low high : Nat)
  | not (condition : Condition)
  | both (first second : Condition)
  | either (first second : Condition)

namespace Condition

/-- The condition holds of a number with the given operands. -/
def holds (operands : Operands) : Condition → Bool
  | .number values => values.any fun value => operands.magnitude == floatOfNat value
  | .among measure values => values.contains (measure.value operands)
  | .within measure low high =>
    low ≤ measure.value operands && measure.value operands ≤ high
  | .not condition => !condition.holds operands
  | .both first second => first.holds operands && second.holds operands
  | .either first second => first.holds operands || second.holds operands

instance : AndOp Condition :=
  ⟨both⟩

instance : OrOp Condition :=
  ⟨either⟩

instance : Complement Condition :=
  ⟨not⟩

end Condition

/-- A rule: categories with their conditions. -/
abbrev PluralRule := List (PluralCategory × Condition)

/-- The category of a number with the given operands. -/
def PluralRule.category (rule : PluralRule) (operands : Operands) : PluralCategory :=
  ((rule.find? fun entry => entry.2.holds operands).map (·.1)).getD .other

/-! ## Vocabulary of the tables -/

namespace PluralTable

/-- The digits before the point. -/
def i : Measure := ⟨.whole, none⟩

/-- How many digits stand behind the point. -/
def v : Measure := ⟨.places, none⟩

/-- The digits behind the point. -/
def f : Measure := ⟨.fraction, none⟩

/-- The digits behind the point without zeros at their end. -/
def t : Measure := ⟨.shortFraction, none⟩

instance : HMod Measure Nat Measure :=
  ⟨fun measure modulus => ⟨measure.operand, some modulus⟩⟩

/-- The number is the given one. -/
def numberIs (value : Nat) : Condition :=
  .number [value]

end PluralTable

namespace Measure

/-- The measure is the given number. -/
def is (measure : Measure) (value : Nat) : Condition :=
  .among measure [value]

/-- The measure is not the given number. -/
def isNot (measure : Measure) (value : Nat) : Condition :=
  .not (.among measure [value])

/-- The measure is one of the given numbers. -/
def among (measure : Measure) (values : List Nat) : Condition :=
  .among measure values

/-- The measure lies between the given bounds, these included. -/
def within (measure : Measure) (low high : Nat) : Condition :=
  .within measure low high

end Measure

end Fluent
