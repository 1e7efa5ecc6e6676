/-
# The built-in function NUMBER

It reads a number and sets how many digits behind the point are shown and whether the number counts
things or places them in an order.
-/
import Fluent.Format.Function
import Fluent.Number.FloatReader
import Fluent.Text.Blank

namespace Fluent

namespace NumberFunction

/-- The most digits behind the point that may be asked for. -/
def maxFractionDigits : Nat := 100

/-- The refusal of one argument. -/
def refused (name reason : String) : FunctionError :=
  .invalidArgument name reason

/-- The number that a value stands for. -/
def number : Value → Except FunctionError NumberValue
  | .number n => .ok n
  | .string text =>
    match readFloat? (trimWhiteSpace text.toList) with
    | some x => .ok { value := x }
    | none => .error (refused "value" ("\x27" ++ text ++ "\x27 is not a number"))
  | .none => .error (refused "value" "missing value")

/-- A whole number of digits between 0 and the most that may be asked for. -/
def digitCount? : Value → Option Nat
  | .number n => (List.range (maxFractionDigits + 1)).find? fun k => n.value == floatOfNat k
  | _ => none

/-- A number of digits, given by name. -/
def digitCount (name : String) (value : Value) : Except FunctionError Nat :=
  match digitCount? value with
  | some digits => .ok digits
  | none =>
    .error (refused name ("expected an integer between 0 and " ++ maxFractionDigits.repr))

/-- A kind of numbers by its name. -/
def kind (name : String) (text : String) : Except FunctionError NumberKind :=
  if text = "cardinal" then .ok .cardinal
  else if text = "ordinal" then .ok .ordinal
  else .error (refused name ("unknown plural type \x27" ++ text ++ "\x27"))

/-- Sets the options in order and ends with the number.  Options of other names do nothing. -/
def withOptions (number : NumberValue) : List (String × Value) → Call
  | [] => .value (.number number)
  | (name, value) :: rest =>
    if name = "minimumFractionDigits" then
      match digitCount name value with
      | .ok digits =>
        withOptions { number with options.minimumFractionDigits := some digits } rest
      | .error e => .failure e
    else if name = "maximumFractionDigits" then
      match digitCount name value with
      | .ok digits =>
        withOptions { number with options.maximumFractionDigits := some digits } rest
      | .error e => .failure e
    else if name = "type" then
      match value.text? with
      | none => .breakOff
      | some text =>
        match kind name (String.ofList text) with
        | .ok kind => withOptions { number with options.kind := kind } rest
        | .error e => .failure e
    else withOptions number rest

/-- Giving a number its formatting options ends without asking for a text. -/
theorem withOptions_isPlain (number : NumberValue) (options : List (String × Value)) :
    (withOptions number options).IsPlain := by
  fun_induction withOptions number options with
  | case1 | case3 | case5 | case6 | case8 => trivial
  | case2 | case4 | case7 | case9 => assumption

end NumberFunction

/-- Reads its one positional argument as a number and sets the options given by name. -/
def numberFunction : Function := fun positional named =>
  match positional with
  | [value] =>
    match NumberFunction.number value with
    | .ok number => NumberFunction.withOptions number named.entries
    | .error e => .failure e
  | _ => .failure (.arity 1 positional.length)

/-- The number function ends without asking for a text. -/
theorem numberFunction_isPlain (positional : List Value) (named : Arguments) :
    (numberFunction positional named).IsPlain := by
  unfold numberFunction
  split
  · split
    · exact NumberFunction.withOptions_isPlain _ _
    · trivial
  · trivial

namespace FunctionTable

/-- Adds the built-in functions. -/
def registerBuiltins (table : FunctionTable) : FunctionTable :=
  table.register "NUMBER" numberFunction

/-- The built-in functions. -/
def builtins : FunctionTable :=
  empty.registerBuiltins

/-- A table without functions asks for no texts. -/
theorem isPlain_empty : empty.IsPlain :=
  nofun

/-- A plain table with one more function that asks for no texts is plain. -/
theorem IsPlain.register {table : FunctionTable} (h : table.IsPlain) (name : String) {f : Function}
    (hf : ∀ positional named, (f positional named).IsPlain) : (table.register name f).IsPlain :=
  forall_register h name hf

/-- The built-in functions ask for no texts. -/
theorem isPlain_builtins : builtins.IsPlain :=
  isPlain_empty.register "NUMBER" numberFunction_isPlain

end FunctionTable

end Fluent
