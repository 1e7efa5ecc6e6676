/-
# Message resources

The tree of a resource: entries with their comments, the patterns of messages and terms, and the
expressions placed in patterns.

String literals, number literals, selections and call arguments have rules that their parts must
keep; trees are built through the checked constructors of `Fluent.Tree.Checked`, which keep them.
-/
import Fluent.Text.Cursor
import Fluent.Number.Decimal

namespace Fluent

/-! ## Leaves -/

/-- A name: of a message, a term, an attribute, a variable, a function, an argument or a variant. -/
structure Identifier where
  name : String
deriving DecidableEq, Inhabited

/-- The bytes from `start` up to `stop`. -/
structure Span where
  start : Nat
  stop : Nat
deriving DecidableEq, Inhabited

namespace Span

/-- The number of bytes in a span; none if it ends before it starts. -/
def length (s : Span) : Nat :=
  s.stop - s.start

/-- A span without bytes. -/
def isEmpty (s : Span) : Bool :=
  s.length == 0

end Span

/-- A quoted text: the text it stands for, and how it is written between the quotes. -/
structure StringLiteral where
  value : String
  raw : String
deriving DecidableEq

/-- A number: its value, and how it is written. -/
structure NumberLiteral where
  value : Decimal
  raw : String
deriving DecidableEq

namespace NumberLiteral

/-- The number of digits written behind the point. -/
def precision (n : NumberLiteral) : Nat :=
  utf8Length ((n.raw.toList.dropWhile (· != '.')).drop 1)

end NumberLiteral

/-- The value of a named argument. -/
inductive Literal
  | string (literal : StringLiteral)
  | number (literal : NumberLiteral)
deriving DecidableEq

/-- An argument given by name. -/
structure NamedArgument where
  name : Identifier
  value : Literal
deriving DecidableEq

/-- What a variant is chosen by. -/
inductive VariantKey
  | identifier (id : Identifier)
  | number (literal : NumberLiteral)
deriving DecidableEq

/-- The key as it is written between the brackets. -/
def VariantKey.text : VariantKey → String
  | .identifier id => id.name
  | .number literal => literal.raw

/-! ## Patterns and expressions -/

mutual

/-- What a placeable holds, or an argument of a call. -/
inductive Expression
  | string (literal : StringLiteral)
  | number (literal : NumberLiteral)
  | var (id : Identifier)
  | message (id : Identifier) (attr : Option Identifier)
  | term (id : Identifier) (attr : Option Identifier) (arguments : Option CallArguments)
  | function (id : Identifier) (arguments : CallArguments)
  | select (selection : Selection)
  | placeable (inner : Expression)

/-- The arguments of a call of a function or a term. -/
structure CallArguments where
  positional : List Expression
  named : List NamedArgument

/-- A choice between variants by the value of a selector, with the place of the default variant. -/
structure Selection where
  selector : Expression
  variants : List Variant
  defaultIndex : Nat

/-- One alternative of a selection. -/
structure Variant where
  key : VariantKey
  value : List PatternElement
  isDefault : Bool

/-- A piece of a pattern: text, or the expression of a placeable. -/
inductive PatternElement
  | text (value : String)
  | placeable (expression : Expression)

end

/-- The value of a message, a term, an attribute or a variant. -/
abbrev Pattern := List PatternElement

/-- The pattern that holds just one text. -/
def Pattern.ofText (value : String) : Pattern :=
  [.text value]

/-- A call without arguments between its parentheses. -/
def CallArguments.isEmpty (arguments : CallArguments) : Bool :=
  arguments.positional.isEmpty && arguments.named.isEmpty

/-- The default variant, if the stored place is that of a variant. -/
def Selection.defaultVariant? (selection : Selection) : Option Variant :=
  selection.variants[selection.defaultIndex]?

/-! ## Entries -/

/-- A named part of a message or a term. -/
structure Attribute where
  id : Identifier
  value : Pattern

/-- How many `#` start the lines of a comment. -/
inductive CommentLevel
  | comment
  | group
  | resource
deriving DecidableEq

/-- The number of `#` at the start of a comment's lines. -/
def CommentLevel.hashes : CommentLevel → Nat
  | .comment => 1
  | .group => 2
  | .resource => 3

/-- A comment; its content is its lines without the marks. -/
structure Comment where
  level : CommentLevel
  content : String
deriving DecidableEq

/-- A message that a program may ask for. -/
structure Message where
  id : Identifier
  value : Option Pattern
  attributes : List Attribute
  comment : Option Comment

/-- A term, which only patterns refer to. -/
structure Term where
  id : Identifier
  value : Pattern
  attributes : List Attribute
  comment : Option Comment

/-- Why a piece of a text became junk. -/
inductive AnnotationCode
  | unreadable
  | nestedTooDeep
  | tooManyErrors
  | sourceTooLarge
deriving DecidableEq

/-- The published name of an annotation's code. -/
def AnnotationCode.text : AnnotationCode → String
  | .unreadable => "PARSE_JUNK"
  | .nestedTooDeep => "PARSE_NESTING_DEPTH_EXCEEDED"
  | .tooManyErrors => "PARSE_ERROR_LIMIT"
  | .sourceTooLarge => "PARSE_SOURCE_TOO_LARGE"

/-- A reason for junk, and where in the text it lies. -/
structure Annotation where
  code : AnnotationCode
  message : String
  span : Span
deriving DecidableEq

/-- A piece of a text that is no entry, kept as it was. -/
structure Junk where
  content : String
  annotations : List Annotation
  span : Span
deriving DecidableEq

/-- An item of a resource. -/
inductive Entry
  | message (message : Message)
  | term (term : Term)
  | comment (comment : Comment)
  | junk (junk : Junk)

/-- A resource: its entries in order. -/
structure Resource where
  entries : List Entry

/-- The attribute of the given name that stands first. -/
def findAttribute? (name : String) (attributes : List Attribute) : Option Attribute :=
  attributes.find? fun attr => attr.id.name == name

namespace Resource

/-- The junk of a resource. -/
def junk (r : Resource) : List Junk :=
  r.entries.filterMap fun
    | .junk junk => some junk
    | _ => none

/-- The messages of a resource. -/
def messages (r : Resource) : List Message :=
  r.entries.filterMap fun
    | .message message => some message
    | _ => none

/-- The terms of a resource. -/
def terms (r : Resource) : List Term :=
  r.entries.filterMap fun
    | .term term => some term
    | _ => none

/-- Some part of the text could not be read. -/
def hasErrors (r : Resource) : Bool :=
  !r.junk.isEmpty

end Resource

end Fluent
