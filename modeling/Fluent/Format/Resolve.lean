/-
# Resolving

Formatting replaces each placeable of a pattern by its text.  Whatever goes wrong is recorded and
leaves a placeholder, a label in braces.

Each expression is resolved one level deeper than the pattern that it stands in.  `Level` holds what
can be done at the next level; `Session.resolve` and `Session.formatAt` tie the levels together, by
recursion on the room that is left up to the greatest limit.
-/
import Fluent.Format.Scope
import Fluent.Format.Select
import Fluent.Format.Formatter
import Fluent.Format.Isolation

namespace Fluent

/-! ## Labels and placeholders -/

/-- The label of a message or a term, or of one of its attributes. -/
def referenceLabel (id : String) : Option String → String
  | none => id
  | some attr => id ++ "." ++ attr

/-- A label in braces. -/
def braced (label : String) : List Char :=
  '\x7b' :: label.toList ++ ['\x7d']

/-- The label of what is nested too deep. -/
def depthLabel : String := "???"

/-- What an expression resolves to: a value, or a placeholder of which a problem is recorded. -/
inductive Resolved
  | value (value : Value)
  | placeholder (label : String)

/-- A text as a result. -/
def Resolved.ofText (text : List Char) : Resolved :=
  .value (.string (String.ofList text))

/-- The text of a result; a number that cannot be written breaks off. -/
def Resolved.text : Resolved → Resolving (List Char)
  | .value v => .ofOption v.text?
  | .placeholder label => pure (braced label)

/-- Records a problem and leaves a placeholder. -/
def failed (error : ResolverError) (label : String) : Resolving Resolved := do
  .record error
  return .placeholder label

/-- What is nested too deep. -/
def tooDeep (limit : Nat) : Resolving Resolved :=
  failed (.depthExceeded limit) depthLabel

/-! ## Expressions -/

/-- An expression without the placeables wrapped around it; they take no level. -/
def Expression.peeled : Expression → Expression
  | .placeable inner => inner.peeled
  | e => e

/-- The expression's text is isolated.  References and texts are already part of the same
resource. -/
def Expression.needsIsolation : Expression → Bool
  | .message .. | .term .. | .string _ => false
  | _ => true

/-- What a call ends with. -/
inductive CallResult
  | value (value : Value)
  | failure (error : FunctionError)
  | brokenOff

/-- Runs a call; the texts that it asks for come from `ask`. -/
def Call.run (ask : Nat → Request → Thread → Formatted × Thread) :
    Call → Thread → CallResult × Thread
  | .value v, thread => (.value v, thread)
  | .failure error, thread => (.failure error, thread)
  | .breakOff, thread => (.brokenOff, thread)
  | .format place request resume, thread =>
    (resume (ask place request thread).1).run ask
      ((ask place request thread).2.note (ask place request thread).1.errors)

/-- What can be done one level deeper. -/
structure Level where
  formatter : Formatter
  resolve : Place → Expression → Resolving Resolved
  ask : Nat → Request → Thread → Formatted × Thread

namespace Level

/-! ## Patterns -/

/-- The texts of elements, from the one with the given index on. -/
def elements (level : Level) (isolating : Bool) (place : Place) :
    Nat → List PatternElement → Resolving (List Char)
  | _, [] => pure []
  | index, .text value :: rest => do
    let texts ← level.elements isolating place (index + 1) rest
    return value.toList ++ texts
  | index, .placeable e :: rest => do
    let result ← level.resolve (place.step index) e
    let text ← result.text
    let texts ← level.elements isolating place (index + 1) rest
    return isolated (isolating && e.needsIsolation) text ++ texts

/-- Whether the placeables of a pattern are isolated; one that stands alone is not. -/
def isolates (level : Level) (pattern : Pattern) : Bool :=
  level.formatter.settings.useIsolating && decide (1 < pattern.length)

/-- The text of the pattern at a place, which must not be one that is being resolved. -/
def pattern (level : Level) (place : Place) (label : String) (pattern : Pattern) :
    Resolving (List Char) := do
  if ← .isOnTrail place then
    .record (.cyclic label)
    return braced label
  else
    .withPlace place (level.elements (level.isolates pattern) place 0 pattern)

/-! ## References -/

/-- A variable's value. -/
def variableValue (name : String) : Resolving Resolved := do
  match ← .valueOf? name with
  | some value => return .value value
  | none => failed (.unknownVariable name) ("$" ++ name)

/-- The pattern of a message or of one of its attributes. -/
def message (level : Level) (id : String) (attr : Option String) : Resolving Resolved := do
  match level.formatter.catalog.message? id with
  | none => failed (.unknownMessage id) id
  | some found =>
    match attr with
    | some name =>
      match findAttribute? name found.attributes with
      | some part =>
        .ofText <$> level.pattern ⟨.message id attr, []⟩ (referenceLabel id attr) part.value
      | none => failed (.unknownAttribute id name) (referenceLabel id attr)
    | none =>
      match found.value with
      | some value =>
        .ofText <$> level.pattern ⟨.message id attr, []⟩ (referenceLabel id attr) value
      | none => failed (.noValue id) id

/-- The pattern of a term or of one of its attributes.  It sees only the named arguments of its
reference. -/
def term (level : Level) (id : String) (attr : Option String) (arguments : Option CallArguments) :
    Resolving Resolved := do
  let args := (arguments.map fun call => namedArguments call.named).getD .empty
  let label := "-" ++ referenceLabel id attr
  match level.formatter.catalog.term? id with
  | none => failed (.unknownTerm id) ("-" ++ id)
  | some found =>
    match attr with
    | some name =>
      match findAttribute? name found.attributes with
      | some part =>
        .ofText <$> .withLocalArgs args (level.pattern ⟨.term id attr, []⟩ label part.value)
      | none => failed (.unknownAttribute ("-" ++ id) name) label
    | none => .ofText <$> .withLocalArgs args (level.pattern ⟨.term id attr, []⟩ label found.value)

/-! ## Calls -/

/-- The values of arguments, from the one with the given index on; none as soon as one of them is a
placeholder. -/
def arguments (level : Level) (place : Place) :
    Nat → List Expression → Resolving (Option (List Value))
  | _, [] => pure (some [])
  | index, e :: rest => do
    match ← level.resolve (place.step index) e with
    | .placeholder _ => return none
    | .value v => return (← level.arguments place (index + 1) rest).map (v :: ·)

/-- What a call ends with. -/
def run (level : Level) (call : Call) : Resolving CallResult := fun scope =>
  .returned (call.run level.ask scope.thread).1
    { scope with thread := (call.run level.ask scope.thread).2 }

/-- The value of a function of the arguments. -/
def function (level : Level) (place : Place) (name : String) (call : CallArguments) :
    Resolving Resolved := do
  let label := name ++ "()"
  match level.formatter.functions.find? name with
  | none => failed (.unknownFunction name) label
  | some f =>
    match ← level.arguments place 0 call.positional with
    | none => return .placeholder label
    | some positional =>
      match ← level.run (f positional (namedArguments call.named)) with
      | .value v => return .value v
      | .failure error => failed (.functionFailed name error) label
      | .brokenOff => failed (.functionBrokeOff name) label

/-! ## Selections -/

/-- The place of the variant for a value: exact keys come first, then the plural category of a
number, then the default variant. -/
def variantIndex (level : Level) (selection : Selection) (value : Value) : Resolving Nat :=
  match selection.exactIndex? value with
  | some index => pure index
  | none =>
    match value with
    | .number n => do
      let category ← .ofOption (level.formatter.plurals n level.formatter.locale)
      return (selection.categoryIndex? category).getD selection.defaultIndex
    | _ => pure selection.defaultIndex

/-- The text of the variant chosen by the selector; the default variant if that is a placeholder. -/
def select (level : Level) (place : Place) (selection : Selection) : Resolving (List Char) := do
  let index ←
    match ← level.resolve (place.step 0) selection.selector with
    | .placeholder _ => pure selection.defaultIndex
    | .value v => level.variantIndex selection v
  let variant ← .ofOption selection.variants[index]?
  level.pattern (place.step (index + 1)) "select" variant.value

/-- The value of an expression that is no placeable. -/
def expression (level : Level) (place : Place) : Expression → Resolving Resolved
  | .string literal => pure (.value (.string literal.value))
  | .number literal => pure (.value (.number (.ofLiteral literal)))
  | .var id => variableValue id.name
  | .message id attr => level.message id.name (attr.map (·.name))
  | .term id attr arguments => level.term id.name (attr.map (·.name)) arguments
  | .function id arguments => level.function place id.name arguments
  | .select selection => .ofText <$> level.select place selection
  | .placeable inner => level.resolve place inner

/-- The value of what is to be formatted. -/
def target (level : Level) : Target → Resolving Resolved
  | .message id attr => level.message id attr
  | .pattern pattern => .ofText <$> level.pattern ⟨.standalone, []⟩ "pattern" pattern

end Level

/-! ## Requests -/

/-- The label of a target. -/
def Target.label : Target → String
  | .message id attr => referenceLabel id attr
  | .pattern _ => "pattern"

/-- Resolves in a scope of its own.  If that breaks off, a placeholder is left, and the one problem
that tells so. -/
def contained (label : String) (args : Arguments) (body : Resolving Resolved) (thread : Thread) :
    Formatted × Thread :=
  match (body >>= Resolved.text) { args := args, thread := thread } with
  | .returned text scope => (⟨text, scope.errors.reverse⟩, scope.thread)
  | .brokenOff thread => (⟨braced label, [.internal label]⟩, thread)

namespace Session

mutual

/-- The value of an expression, with the given room below the session's limit. -/
def resolve (session : Session) :
    Nat → Formatter → Place → Expression → Resolving Resolved
  | 0, formatter, _, _ => tooDeep formatter.limit
  | room + 1, formatter, place, e =>
    .guarded formatter.limit (tooDeep formatter.limit)
      (Level.expression
        { formatter
          resolve := session.resolve room formatter
          ask := fun n => session.formatAt room (session.formatter n) }
        place e.peeled)

/-- Formats what is asked for, with the given room below the session's limit. -/
def formatAt (session : Session) : Nat → Formatter → Request → Thread → Formatted × Thread
  | 0, formatter, request, thread =>
    contained request.target.label request.args (tooDeep formatter.limit) thread
  | room + 1, formatter, request, thread =>
    contained request.target.label request.args
      (.guarded formatter.limit (tooDeep formatter.limit)
        (Level.target
          { formatter
            resolve := session.resolve room formatter
            ask := fun n => session.formatAt room (session.formatter n) }
          request.target))
      thread

end

/-- Formats what is asked for with the main formatter. -/
def format (session : Session) (request : Request) (thread : Thread := {}) : Formatted × Thread :=
  session.formatAt (session.limit - thread.depth.current) session.main request thread

end Session

namespace Formatter

/-- Formats a message or one of its attributes. -/
def format (formatter : Formatter) (id : String) (attr : Option String := none)
    (args : Arguments := .empty) : Formatted :=
  (Session.format ⟨formatter, []⟩ ⟨.message id attr, args⟩).1

/-- Formats a pattern.  It counts as one of its own, also if the same pattern stands in the
catalog. -/
def formatPattern (formatter : Formatter) (pattern : Pattern) (args : Arguments := .empty) :
    Formatted :=
  (Session.format ⟨formatter, []⟩ ⟨.pattern pattern, args⟩).1

end Formatter

end Fluent
