/-
# Values

What a message can place or select on: texts, numbers with options on how they are shown, or
nothing.

* `NumberValue.text?` : a number's text; none where more digits are asked for than can be written.
-/
import Fluent.SortedMap
import Fluent.Tree.Basic
import Fluent.Number.DecimalFloat
import Fluent.Number.FloatText

namespace Fluent

/-- Whether a number counts things or places them in an order. -/
inductive NumberKind
  | cardinal
  | ordinal
deriving DecidableEq

/-- How a number is shown. -/
structure NumberOptions where
  minimumFractionDigits : Option Nat := none
  maximumFractionDigits : Option Nat := none
  kind : NumberKind := .cardinal
deriving DecidableEq

/-- A number with its options. -/
structure NumberValue where
  value : Float
  options : NumberOptions := {}

/-- The most digits behind the point that can be written. -/
def maxFormatDigits : Nat := 65535

namespace NumberValue

/-- The value of a number literal; it keeps the digits behind the point that it was written with. -/
def ofLiteral (literal : NumberLiteral) : NumberValue :=
  { value := literal.value.toFloat
    options :=
      { minimumFractionDigits := if 0 < literal.precision then some literal.precision else none } }

/-- The digits behind the point in the shortest text of a number. -/
def naturalDigits (text : List Char) : Nat :=
  ((text.dropWhile (· != '.')).drop 1).length

/-- The number of digits behind the point: as many as the shortest text has, at most the maximum,
but at least the minimum. -/
def fractionDigits (options : NumberOptions) (natural : Nat) : Nat :=
  let capped := (options.maximumFractionDigits.map (min natural)).getD natural
  (options.minimumFractionDigits.map (max capped)).getD capped

/-- The number is neither infinite nor undefined. -/
def isFinite (x : Float) : Bool :=
  match FloatParts.ofFloat x with
  | .finite .. => true
  | _ => false

/-- The number's text under its options. -/
def text? (n : NumberValue) : Option (List Char) :=
  let natural := floatText n.value
  if !isFinite n.value ||
      (n.options.minimumFractionDigits.isNone && n.options.maximumFractionDigits.isNone) then
    some natural
  else
    let digits := fractionDigits n.options (naturalDigits natural)
    if digits ≤ maxFormatDigits then some (fixedFloatText digits n.value) else none

end NumberValue

/-- A value. -/
inductive Value
  | string (text : String)
  | number (number : NumberValue)
  | none

namespace Value

/-- The text of a value where it is placed; nothing has the empty text. -/
def text? : Value → Option (List Char)
  | .string text => some text.toList
  | .number n => n.text?
  | .none => some []

/-- The number that a value is, if it is one. -/
def number? : Value → Option NumberValue
  | .number n => some n
  | _ => Option.none

/-- A plain number. -/
def ofFloat (x : Float) : Value :=
  .number { value := x }

/-- The value of a literal. -/
def ofLiteral : Literal → Value
  | .string literal => .string literal.value
  | .number literal => .number (.ofLiteral literal)

end Value

/-! ## Arguments -/

/-- Named values, in the order of their names. -/
abbrev Arguments := SortedMap Value

/-- The named arguments of a call. -/
def namedArguments (named : List NamedArgument) : Arguments :=
  .ofList (named.map fun argument => (argument.name.name, Value.ofLiteral argument.value))

end Fluent
