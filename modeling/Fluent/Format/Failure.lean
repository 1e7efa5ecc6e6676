/-
# Problems met while formatting

Formatting never stops at a problem; it records it and goes on with a placeholder.  Each problem has
a wording, a category and a code.
-/

namespace Fluent

/-- Why a function refuses its arguments. -/
inductive FunctionError
  | arity (expected actual : Nat)
  | invalidArgument (name reason : String)
  | custom (text : String)
deriving DecidableEq

/-- The wording of a refusal. -/
def FunctionError.message : FunctionError → String
  | .arity expected actual =>
    "expected " ++ expected.repr ++ " positional argument(s), got " ++ actual.repr
  | .invalidArgument name reason => "invalid argument " ++ name ++ ": " ++ reason
  | .custom text => text

/-- A problem met while formatting. -/
inductive ResolverError
  | unknownVariable (name : String)
  | unknownMessage (id : String)
  | unknownTerm (id : String)
  | unknownAttribute (id attr : String)
  | noValue (id : String)
  | unknownFunction (name : String)
  | cyclic (label : String)
  | depthExceeded (limit : Nat)
  | functionFailed (name : String) (reason : FunctionError)
  | functionBrokeOff (name : String)
  | internal (label : String)
deriving DecidableEq

/-- A coarse division of problems. -/
inductive ErrorCategory
  | syntactic
  | resolution
  | formatting
  | reference
deriving DecidableEq

/-- The published name of a category. -/
def ErrorCategory.text : ErrorCategory → String
  | .syntactic => "SYNTAX"
  | .resolution => "RESOLUTION"
  | .formatting => "FORMATTING"
  | .reference => "REFERENCE"

namespace ResolverError

/-- The wording of a problem. -/
def message : ResolverError → String
  | .unknownVariable name => "unknown variable: $" ++ name
  | .unknownMessage id => "unknown message: " ++ id
  | .unknownTerm id => "unknown term: -" ++ id
  | .unknownAttribute id attr => "unknown attribute: " ++ id ++ "." ++ attr
  | .noValue id => "message " ++ id ++ " has no value"
  | .unknownFunction name => "unknown function: " ++ name
  | .cyclic label => "cyclic reference detected at " ++ label
  | .depthExceeded limit => "maximum expression depth of " ++ limit.repr ++ " exceeded"
  | .functionFailed name reason => "function " ++ name ++ " failed: " ++ reason.message
  | .functionBrokeOff name => "function " ++ name ++ " panicked"
  | .internal label => "internal error while resolving " ++ label

/-- The category of a problem. -/
def category : ResolverError → ErrorCategory
  | .unknownVariable _ | .cyclic _ | .depthExceeded _ | .internal _ => .resolution
  | .unknownMessage _ | .unknownTerm _ | .unknownAttribute .. | .noValue _ | .unknownFunction _ =>
    .reference
  | .functionFailed .. | .functionBrokeOff _ => .formatting

/-- The code of a problem. -/
def code : ResolverError → String
  | .unknownVariable _ => "unknown_variable"
  | .unknownMessage _ => "unknown_message"
  | .unknownTerm _ => "unknown_term"
  | .unknownAttribute .. => "unknown_attribute"
  | .noValue _ => "no_value"
  | .unknownFunction _ => "unknown_function"
  | .cyclic _ => "cyclic_reference"
  | .depthExceeded _ => "depth_exceeded"
  | .functionFailed .. => "function_failed"
  | .functionBrokeOff _ => "function_panicked"
  | .internal _ => "internal"

end ResolverError

end Fluent
