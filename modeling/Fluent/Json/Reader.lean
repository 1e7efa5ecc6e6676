/-
# Reading JSON

A text is cut into tokens, and a value is assembled from them.  Fields that occur more than once are
all kept.
-/
import Fluent.Json.Assembly
import Fluent.Number.Digits
import Fluent.Text.Escaped

namespace Fluent

namespace JsonReader

/-- The escapes of JSON. -/
def escapes : EscapeTable where
  letters := [('"', '"'), ('\\', '\\'), ('/', '/'), ('b', '\x08'), ('f', '\x0c'), ('n', '\n'),
    ('r', '\r'), ('t', '\t')]
  codes := [('u', 4)]
  allows ch := 32 ≤ ch.toNat

/-- White space between tokens. -/
def isBlank (ch : Char) : Bool :=
  ch = ' ' || ch = '\n' || ch = '\t' || ch = '\r'

/-- A character of a number. -/
def isNumberChar (ch : Char) : Bool :=
  ch.isDigit || ['+', '-', '.', 'e', 'E'].contains ch

/-- Digits without zeros in front of them. -/
def isWhole : List Char → Bool
  | ['0'] => true
  | '0' :: _ => false
  | digits => !digits.isEmpty && digits.all Char.isDigit

/-- The exponent of a number: nothing, or a mark, an optional sign and digits. -/
def exponent? : List Char → Option Int
  | [] => some 0
  | _ :: '-' :: digits => if allDigits digits then some (-(digitsValue digits : Int)) else none
  | _ :: '+' :: digits => if allDigits digits then some (digitsValue digits) else none
  | _ :: digits => if allDigits digits then some (digitsValue digits) else none

/-- The number that a run of characters denotes. -/
def number? (run : List Char) : Option JsonNumber := do
  let negative := run.head? = some '-'
  let unsigned := if negative then run.tail else run
  let isMark (ch : Char) : Bool := ch = 'e' || ch = 'E'
  let mantissa := unsigned.takeWhile (!isMark ·)
  let whole := mantissa.takeWhile (· != '.')
  let fraction := mantissa.dropWhile (· != '.')
  let written := unsigned.dropWhile (!isMark ·)
  let exponent ← exponent? written
  if isWhole whole && (fraction.isEmpty || allDigits fraction.tail) then
    let size := digitsValue (whole ++ fraction.tail)
    let digits : Int := if negative then -size else size
    if fraction.isEmpty && written.isEmpty && !(negative && size = 0) then return .integer digits
    else return .real digits (exponent - fraction.tail.length)
  else none

/-- The value that a word stands for. -/
def word? (word : List Char) : Option Json :=
  if word = "true".toList then some (.bool true)
  else if word = "false".toList then some (.bool false)
  else if word = "null".toList then some .null
  else none

/-- The token of a bracket, a comma or a colon. -/
def mark? (ch : Char) : Option JsonToken :=
  [('[', .openArray), (']', .closeArray), ('\x7b', .openObject), ('\x7d', .closeObject),
    (',', .comma), (':', .colon)].lookup ch

/-- The first token of a text and what follows it. -/
def token? (ch : Char) (text : List Char) : Option (JsonToken × List Char) :=
  match mark? ch with
  | some token => some (token, text)
  | none =>
    if ch = '"' then
      (escapes.units? text).map fun (units, rest) =>
        (.text ((textOfUnits? units).map String.ofList), rest)
    else if isNumberChar ch then
      (number? (ch :: text.takeWhile isNumberChar)).map fun n =>
        (.scalar (.number n), text.dropWhile isNumberChar)
    else
      (word? (ch :: text.takeWhile Char.isAlpha)).map fun value =>
        (.scalar value, text.dropWhile Char.isAlpha)

/-- Reading a quoted text leaves no more characters than there were. -/
theorem length_le_of_units? {table : EscapeTable} {text rest : List Char} {units : List TextUnit}
    (h : table.units? text = some (units, rest)) : rest.length ≤ text.length := by
  fun_induction EscapeTable.units? table text generalizing units with
  | case1 => cases h
  | case2 => grind
  | case3 => cases h
  | case4 letter text unit count he hq ih =>
    obtain ⟨⟨units', rest'⟩, hu, hp⟩ := Option.map_eq_some_iff.1 h
    obtain ⟨-, rfl⟩ := Prod.mk.inj hp
    have := ih hu
    simp only [List.length_drop, List.length_cons] at this ⊢
    omega
  | case5 => cases h
  | case6 ch text hq hb ha ih =>
    obtain ⟨⟨units', rest'⟩, hu, hp⟩ := Option.map_eq_some_iff.1 h
    obtain ⟨-, rfl⟩ := Prod.mk.inj hp
    exact Nat.le_succ_of_le (ih hu)
  | case7 => cases h

/-- What follows a token is no longer than what followed its first character. -/
theorem length_le_of_token? {ch : Char} {text rest : List Char} {token : JsonToken}
    (h : token? ch text = some (token, rest)) : rest.length ≤ text.length := by
  unfold token? at h
  split at h
  · grind
  · split at h
    · obtain ⟨⟨units, rest'⟩, hu, he⟩ := Option.map_eq_some_iff.1 h
      obtain ⟨-, rfl⟩ := Prod.mk.inj he
      exact length_le_of_units? hu
    · split at h
      · obtain ⟨n, -, he⟩ := Option.map_eq_some_iff.1 h
        obtain ⟨-, rfl⟩ := Prod.mk.inj he
        exact (List.dropWhile_suffix _).length_le
      · obtain ⟨value, -, he⟩ := Option.map_eq_some_iff.1 h
        obtain ⟨-, rfl⟩ := Prod.mk.inj he
        exact (List.dropWhile_suffix _).length_le

/-- The tokens of a text. -/
def tokens? : List Char → Option (List JsonToken)
  | [] => some []
  | ch :: text =>
    if isBlank ch then tokens? text
    else
      match _h : token? ch text with
      | some (token, rest) => (tokens? rest).map (token :: ·)
      | none => none
termination_by text => text.length
decreasing_by
  · simp
  · have := length_le_of_token? _h
    simp only [List.length_cons]
    omega

end JsonReader

/-- The value that a text of JSON denotes. -/
def Json.read? (text : List Char) : Option Json := do
  (← ({} : Assembly).steps? (← JsonReader.tokens? text)).value?

end Fluent
