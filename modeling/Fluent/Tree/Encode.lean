/-
# Trees as JSON

Each part of a tree is an object; parts of which there are several kinds say in the field `type`
which one they are.  Missing parts are null.
-/
import Fluent.Json.Value
import Fluent.Tree.Basic

namespace Fluent

namespace Identifier

/-- An identifier's fields. -/
def fields (id : Identifier) : List (String × Json) :=
  [("name", .string id.name)]

/-- An identifier as JSON. -/
def encode (id : Identifier) : Json :=
  .object id.fields

end Identifier

/-- A span as JSON. -/
def Span.encode (s : Span) : Json :=
  .object [("start", .ofNat s.start), ("end", .ofNat s.stop)]

/-- A string literal's fields. -/
def StringLiteral.fields (s : StringLiteral) : List (String × Json) :=
  [("value", .string s.value), ("raw", .string s.raw)]

/-- A number literal's fields. -/
def NumberLiteral.fields (n : NumberLiteral) : List (String × Json) :=
  [("value", .string (String.ofList n.value.text)), ("raw", .string n.raw)]

/-- The object with the given type and fields. -/
def tagged (type : String) (fields : List (String × Json)) : Json :=
  .object (("type", .string type) :: fields)

/-- A literal as JSON. -/
def Literal.encode : Literal → Json
  | .string s => tagged "StringLiteral" s.fields
  | .number n => tagged "NumberLiteral" n.fields

/-- A named argument as JSON. -/
def NamedArgument.encode (argument : NamedArgument) : Json :=
  .object [("name", argument.name.encode), ("value", argument.value.encode)]

/-- The key of a variant as JSON. -/
def VariantKey.encode : VariantKey → Json
  | .identifier id => tagged "Identifier" id.fields
  | .number n => tagged "NumberLiteral" n.fields

mutual

/-- An expression as JSON. -/
def Expression.encode : Expression → Json
  | .string s => tagged "StringLiteral" s.fields
  | .number n => tagged "NumberLiteral" n.fields
  | .var id => tagged "VariableReference" [("id", id.encode)]
  | .message id attr =>
    tagged "MessageReference" [("id", id.encode), ("attribute", .ofOption Identifier.encode attr)]
  | .term id attr none =>
    tagged "TermReference"
      [("id", id.encode), ("attribute", .ofOption Identifier.encode attr), ("arguments", .null)]
  | .term id attr (some arguments) =>
    tagged "TermReference"
      [("id", id.encode), ("attribute", .ofOption Identifier.encode attr),
        ("arguments", arguments.encode)]
  | .function id arguments =>
    tagged "FunctionReference" [("id", id.encode), ("arguments", arguments.encode)]
  | .select selection => tagged "SelectExpression" selection.fields
  | .placeable inner => tagged "Placeable" [("expression", inner.encode)]

/-- Call arguments as JSON. -/
def CallArguments.encode : CallArguments → Json
  | ⟨positional, named⟩ =>
    .object
      [("positional", .array (encodeExpressions positional)),
        ("named", .array (named.map NamedArgument.encode))]

/-- A selection's fields. -/
def Selection.fields : Selection → List (String × Json)
  | ⟨selector, variants, _⟩ =>
    [("selector", selector.encode), ("variants", .array (encodeVariants variants))]

/-- A variant as JSON. -/
def Variant.encode : Variant → Json
  | ⟨key, value, isDefault⟩ =>
    .object
      [("key", key.encode), ("value", .object [("elements", .array (encodeElements value))]),
        ("default", .bool isDefault)]

/-- An element of a pattern as JSON. -/
def PatternElement.encode : PatternElement → Json
  | .text value => tagged "TextElement" [("value", .string value)]
  | .placeable expression => tagged "Placeable" [("expression", expression.encode)]

/-- Expressions as JSON, one by one. -/
def encodeExpressions : List Expression → List Json
  | [] => []
  | e :: es => e.encode :: encodeExpressions es

/-- Variants as JSON, one by one. -/
def encodeVariants : List Variant → List Json
  | [] => []
  | v :: vs => v.encode :: encodeVariants vs

/-- Elements as JSON, one by one. -/
def encodeElements : List PatternElement → List Json
  | [] => []
  | x :: xs => x.encode :: encodeElements xs

end

/-- A pattern as JSON. -/
def Pattern.encode (p : Pattern) : Json :=
  .object [("elements", .array (encodeElements p))]

/-- An attribute as JSON. -/
def Attribute.encode (attr : Attribute) : Json :=
  .object [("id", attr.id.encode), ("value", Pattern.encode attr.value)]

/-- The name of a comment's level. -/
def CommentLevel.name : CommentLevel → String
  | .comment => "Comment"
  | .group => "Group"
  | .resource => "Resource"

/-- A comment's fields. -/
def Comment.fields (c : Comment) : List (String × Json) :=
  [("level", .string c.level.name), ("content", .string c.content)]

/-- A comment as JSON. -/
def Comment.encode (c : Comment) : Json :=
  .object c.fields

/-- A message's fields. -/
def Message.fields (m : Message) : List (String × Json) :=
  [("id", m.id.encode), ("value", .ofOption Pattern.encode m.value),
    ("attributes", .array (m.attributes.map Attribute.encode)),
    ("comment", .ofOption Comment.encode m.comment)]

/-- A message as JSON. -/
def Message.encode (m : Message) : Json :=
  .object m.fields

/-- A term's fields. -/
def Term.fields (t : Term) : List (String × Json) :=
  [("id", t.id.encode), ("value", Pattern.encode t.value),
    ("attributes", .array (t.attributes.map Attribute.encode)),
    ("comment", .ofOption Comment.encode t.comment)]

/-- A term as JSON. -/
def Term.encode (t : Term) : Json :=
  .object t.fields

/-- The name of an annotation's code. -/
def AnnotationCode.name : AnnotationCode → String
  | .unreadable => "ParseJunk"
  | .nestedTooDeep => "NestingDepthExceeded"
  | .tooManyErrors => "ParseErrorLimit"
  | .sourceTooLarge => "SourceTooLarge"

/-- An annotation as JSON. -/
def Annotation.encode (a : Annotation) : Json :=
  .object
    [("code", .string a.code.name), ("message", .string a.message), ("span", a.span.encode)]

/-- Junk's fields. -/
def Junk.fields (j : Junk) : List (String × Json) :=
  [("content", .string j.content), ("annotations", .array (j.annotations.map Annotation.encode)),
    ("span", j.span.encode)]

/-- An entry as JSON. -/
def Entry.encode : Entry → Json
  | .message m => tagged "Message" m.fields
  | .term t => tagged "Term" t.fields
  | .comment c => tagged "Comment" c.fields
  | .junk j => tagged "Junk" j.fields

/-- A resource as JSON. -/
def Resource.encode (r : Resource) : Json :=
  .object [("entries", .array (r.entries.map Entry.encode))]

end Fluent
