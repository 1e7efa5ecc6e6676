/-
# Functions

A pattern may call functions.  A function gets values and answers with a value or refuses them; it
may also break off, and before it ends it may have a formatter format something.  Functions are
found by their names in capital letters.
-/
import Fluent.Format.Value
import Fluent.Format.Failure
import Fluent.Text.Printable

namespace Fluent

/-! ## Requests -/

/-- What can be formatted: a message or one of its attributes, or a pattern. -/
inductive Target
  | message (id : String) (attr : Option String)
  | pattern (pattern : Pattern)

/-- Something to format, with the values of its variables. -/
structure Request where
  target : Target
  args : Arguments := .empty

/-- A text, and the problems met on the way to it, in their order. -/
structure Formatted where
  text : List Char
  errors : List ResolverError

/-! ## Calls -/

/-- What a function does with its arguments.  Before it ends it may ask for a text from one of the
formatters at hand, given by its place, and go on with what it gets. -/
inductive Call
  | value (value : Value)
  | failure (error : FunctionError)
  | breakOff
  | format (formatter : Nat) (request : Request) (resume : Formatted → Call)

namespace Call

/-- Ends with a value, or breaks off where there is none. -/
def ofOption : Option Value → Call
  | some v => .value v
  | none => .breakOff

/-- Ends with a value or a refusal. -/
def ofExcept : Except FunctionError Value → Call
  | .ok v => .value v
  | .error e => .failure e

/-- The call ends without asking for a text. -/
def IsPlain : Call → Prop
  | .format .. => False
  | _ => True

end Call

/-- A function of positional and named arguments. -/
abbrev Function := List Value → Arguments → Call

/-! ## Tables of functions -/

/-- Functions by name. -/
structure FunctionTable where
  functions : SortedMap Function

namespace FunctionTable

/-- No functions. -/
def empty : FunctionTable :=
  ⟨.empty⟩

/-- A name in capital letters. -/
def canonical (name : String) : String :=
  name.map Char.toUpper

/-- Puts a function under a name, replacing the one that was there. -/
def register (name : String) (f : Function) (table : FunctionTable) : FunctionTable :=
  ⟨table.functions.insert (canonical name) f⟩

/-- The function of a name. -/
def find? (name : String) (table : FunctionTable) : Option Function :=
  table.functions.find? (canonical name)

/-- There is a function of the name. -/
def contains (name : String) (table : FunctionTable) : Bool :=
  (table.find? name).isSome

/-- Takes away the function of a name. -/
def erase (name : String) (table : FunctionTable) : FunctionTable :=
  ⟨table.functions.erase (canonical name)⟩

/-- The names, in order. -/
def names (table : FunctionTable) : List String :=
  table.functions.keys

/-- The number of functions. -/
def size (table : FunctionTable) : Nat :=
  table.functions.size

/-- There are no functions. -/
def isEmpty (table : FunctionTable) : Bool :=
  table.functions.isEmpty

/-- A line that lists the names. -/
def description (table : FunctionTable) : List Char :=
  "FunctionRegistry \x7b functions: [".toList ++
    [',', ' '].intercalate (table.names.map shownName) ++ "] \x7d".toList

/-- No function of the table asks for texts. -/
def IsPlain (table : FunctionTable) : Prop :=
  ∀ name f, table.find? name = some f → ∀ positional named, (f positional named).IsPlain

/-- What holds of all functions of a table and of one more holds of all after its registration. -/
theorem forall_register {P : Function → Prop} {table : FunctionTable}
    (h : ∀ name f, table.find? name = some f → P f) (name : String) {f : Function} (hf : P f) :
    ∀ other g, (table.register name f).find? other = some g → P g := by
  intro other g hg
  rw [find?, register, SortedMap.find?_insert] at hg
  split at hg
  · rw [← Option.some.inj hg]
    exact hf
  · exact h other g hg

end FunctionTable

end Fluent
