/-
# Scalars of YAML

What plain scalars stand for.  A plain scalar without characters stands for an empty mapping.
-/
import Fluent.Json.Value
import Fluent.Text.Hex

namespace Fluent.Yaml

/-- The value that a missing scalar stands for. -/
def missing : Json :=
  .object []

/-- A digit in the given base. -/
def isDigitIn (base : Nat) (ch : Char) : Bool :=
  isHexDigit ch && hexDigitValue ch < base

/-- The number that digits denote in a base, if it is below 2^64. -/
def digitsIn? (base : Nat) (digits : List Char) : Option Nat :=
  let value := digits.foldl (fun n ch => base * n + hexDigitValue ch) 0
  if !digits.isEmpty && digits.all (isDigitIn base) && value < UInt64.size then some value else none

/-- The natural number that a plain scalar stands for.  Decimal digits with zeros in front stand for
none. -/
def natural? (text : List Char) : Option Nat :=
  match if text.head? = some '+' then text.tail else text with
  | '0' :: 'x' :: digits => digitsIn? 16 digits
  | '0' :: 'o' :: digits => digitsIn? 8 digits
  | '0' :: 'b' :: digits => digitsIn? 2 digits
  | '0' :: _ :: _ => none
  | digits => digitsIn? 10 digits

/-- The value that a plain scalar stands for. -/
def plainValue (text : List Char) : Json :=
  let word := String.ofList text
  if word = "" then missing
  else if ["null", "Null", "NULL", "~"].contains word then .null
  else if ["true", "True", "TRUE"].contains word then .bool true
  else if ["false", "False", "FALSE"].contains word then .bool false
  else
    match natural? text with
    | some n => .ofNat n
    | none => .string word

end Fluent.Yaml
