/-
# Printing JSON

A JSON value over several lines, two spaces for each level; empty arrays and objects stay on one
line.
-/
import Fluent.Json.Value
import Fluent.Number.Digits

namespace Fluent

/-- The lower case hexadecimal digit of a number below sixteen. -/
def lowerHexDigit (n : Nat) : Char :=
  if n < 10 then Char.ofNat ('0'.toNat + n) else Char.ofNat ('a'.toNat + n - 10)

/-- How a character is written in a JSON string. -/
def jsonChar (ch : Char) : List Char :=
  match ch with
  | '"' => ['\\', '"']
  | '\\' => ['\\', '\\']
  | '\n' => ['\\', 'n']
  | '\r' => ['\\', 'r']
  | '\t' => ['\\', 't']
  | '\x08' => ['\\', 'b']
  | '\x0c' => ['\\', 'f']
  | ch =>
    if ch.toNat < 32 then
      ['\\', 'u', '0', '0', lowerHexDigit (ch.toNat / 16), lowerHexDigit (ch.toNat % 16)]
    else
      [ch]

/-- A text as a JSON string. -/
def jsonString (s : String) : List Char :=
  '"' :: s.toList.flatMap jsonChar ++ ['"']

/-- An integer in base ten. -/
def intText (n : Int) : List Char :=
  (if n < 0 then ['-'] else []) ++ natDigits n.natAbs

/-- A number as JSON. -/
def JsonNumber.text : JsonNumber → List Char
  | .integer n => intText n
  | .real digits exponent => intText digits ++ 'e' :: intText exponent

/-- The start of a line at the given depth. -/
def newLine (depth : Nat) : List Char :=
  '\n' :: List.replicate (2 * depth) ' '

mutual

/-- A value whose first line starts at the given depth. -/
def Json.pretty (depth : Nat) : Json → List Char
  | .null => "null".toList
  | .bool true => "true".toList
  | .bool false => "false".toList
  | .number n => n.text
  | .string s => jsonString s
  | .array [] => ['[', ']']
  | .array (item :: items) =>
    '[' :: newLine (depth + 1) ++ item.pretty (depth + 1) ++ prettyItems (depth + 1) items
      ++ newLine depth ++ [']']
  | .object [] => ['{', '}']
  | .object ((name, value) :: fields) =>
    '{' :: newLine (depth + 1) ++ jsonString name ++ [':', ' '] ++ value.pretty (depth + 1)
      ++ prettyFields (depth + 1) fields ++ newLine depth ++ ['}']

/-- The items behind the first one. -/
def prettyItems (depth : Nat) : List Json → List Char
  | [] => []
  | item :: items => ',' :: newLine depth ++ item.pretty depth ++ prettyItems depth items

/-- The fields behind the first one. -/
def prettyFields (depth : Nat) : List (String × Json) → List Char
  | [] => []
  | (name, value) :: fields =>
    ',' :: newLine depth ++ jsonString name ++ [':', ' '] ++ value.pretty depth
      ++ prettyFields depth fields

end

end Fluent
