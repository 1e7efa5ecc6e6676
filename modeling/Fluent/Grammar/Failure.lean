/-
# Why a text cannot be read

A rule of the grammar that does not apply answers where it gave up, why, and what it would have
accepted.  The wording of each reason stands in one place, `FailureKind.message`.
-/
import Fluent.Text.Cursor

namespace Fluent

/-- The reasons for giving up. -/
inductive FailureKind
  | expectedEntry
  | expectedToken (token : Char)
  | expectedCharacterIn (range : String)
  | expectedLineEnd
  | expectedMessageField (id : String)
  | expectedTermField (id : String)
  | missingValue
  | expectedInlineExpression
  | expectedSimpleSelector
  | messageReferenceAsSelector
  | termReferenceAsSelector
  | termAttributeAsPlaceable
  | unterminatedString
  | lineEndInString
  | unescapedQuote
  | unknownEscape (sequence : String)
  | invalidUnicodeEscape (sequence : String)
  | positionalAfterNamed
  | duplicateNamedArgument (name : String)
  | namedArgumentNotLiteral
  | unbalancedClosingBrace
  | missingVariants
  | missingDefaultVariant
  | multipleDefaultVariants
  | tooManyHashes
  | tokenTooLong (token : String) (limit : Nat)
  | invalidNumber (reason : String)
  | nestedTooDeep (limit : Nat)
deriving DecidableEq

/-- The wording of a reason. -/
def FailureKind.message : FailureKind → String
  | .expectedEntry => "expected an entry start"
  | .expectedToken token => "expected token \"" ++ token.toString ++ "\""
  | .expectedCharacterIn range => "expected a character from range " ++ range
  | .expectedLineEnd => "expected a line end"
  | .expectedMessageField id =>
    "expected message \"" ++ id ++ "\" to have a value or attributes"
  | .expectedTermField id => "expected term \"-" ++ id ++ "\" to have a value"
  | .missingValue => "expected a value"
  | .expectedInlineExpression => "expected an inline expression"
  | .expectedSimpleSelector => "expected a simple expression as selector"
  | .messageReferenceAsSelector => "message references cannot be used as selectors"
  | .termReferenceAsSelector => "terms can only be used as selectors through an attribute"
  | .termAttributeAsPlaceable => "term attributes cannot be used as placeables"
  | .unterminatedString => "unterminated string literal"
  | .lineEndInString => "line endings are not allowed in string literals"
  | .unescapedQuote => "unescaped quote in string literal"
  | .unknownEscape sequence => "unknown escape sequence \\" ++ sequence
  | .invalidUnicodeEscape sequence => "invalid unicode escape sequence \\" ++ sequence
  | .positionalAfterNamed => "positional arguments must not follow named arguments"
  | .duplicateNamedArgument name => "named argument \"" ++ name ++ "\" is given more than once"
  | .namedArgumentNotLiteral => "named argument values must be string or number literals"
  | .unbalancedClosingBrace => "unbalanced closing brace in text"
  | .missingVariants => "select expression has no variants"
  | .missingDefaultVariant => "select expression needs exactly one default variant"
  | .multipleDefaultVariants => "select expression has more than one default variant"
  | .tooManyHashes => "comments start with one to three \x27#\x27 characters"
  | .tokenTooLong token limit => token ++ " exceeds the maximum length of " ++ limit.repr
  | .invalidNumber reason => "invalid number literal: " ++ reason
  | .nestedTooDeep limit => "nesting depth exceeds the maximum of " ++ limit.repr

/-- Where a rule gave up, why, and what it would have accepted there. -/
structure ParseFailure where
  position : Nat
  kind : FailureKind
  expected : List String
deriving DecidableEq

namespace ParseFailure

/-- The braces and parentheses are nested deeper than allowed. -/
def isTooDeep (failure : ParseFailure) : Bool :=
  match failure.kind with
  | .nestedTooDeep _ => true
  | _ => false

/-- The reason, followed by what would have been accepted. -/
def message (failure : ParseFailure) : String :=
  if failure.expected.isEmpty then failure.kind.message
  else failure.kind.message ++ " (expected " ++ " or ".intercalate failure.expected ++ ")"

end ParseFailure

/-- What a rule answers: most often a value and the cursor behind what it read, or why it gave
up. -/
abbrev Reading := Except ParseFailure

/-- Giving up at a cursor. -/
def Cursor.fail {α : Type} (c : Cursor) (kind : FailureKind) : Reading α :=
  .error ⟨c.pos, kind, []⟩

/-- A step followed by another succeeds when both do. -/
theorem bind_eq_ok {ε α β : Type} {x : Except ε α} {f : α → Except ε β} {b : β} :
    (x >>= f) = .ok b ↔ ∃ a, x = .ok a ∧ f a = .ok b := by
  cases x <;> simp [bind, Except.bind]

/-- A failure is no success, of whatever kind it is. -/
@[simp] theorem fail_ne_ok {α : Type} {c : Cursor} {kind : FailureKind} {a : α} :
    c.fail kind ≠ .ok a := by
  simp [Cursor.fail]

end Fluent
