/-
# Trees from JSON

Each part of a tree is read from the form that it is written in, or from an array of its parts in
their order.  Literals, selections and call arguments are built through their checked constructors,
so that what is decoded keeps their rules; fields that no rule names are left aside.
-/
import Fluent.Json.Decoding
import Fluent.Number.DecimalReader
import Fluent.Number.FloatText
import Fluent.Number.LongFloat
import Fluent.Tree.Checked

namespace Fluent

/-- A decoded part of a tree. -/
abbrev TreeDecoding := Decoding TreeError

open Json (decodeString decodeBool decodeNat decodeList decodeOption decodeName TagPlace)

/-! ## Leaves -/

/-- An identifier. -/
def Identifier.decode (j : Json) : TreeDecoding Identifier := do
  let name := j.part 0 "name" decodeString
  j.settle [name.outcome]
  return ⟨← name.demand⟩

/-- A span. -/
def Span.decode (j : Json) : TreeDecoding Span := do
  let start := j.part 0 "start" decodeNat
  let stop := j.part 1 "end" decodeNat
  j.settle [stop.outcome, start.outcome]
  return ⟨← start.demand, ← stop.demand⟩

/-- A string literal.  Its value is that of its text, whatever value is given. -/
def StringLiteral.decode (j : Json) : TreeDecoding StringLiteral := do
  let value := j.part 0 "value" decodeString
  let raw := j.part 1 "raw" decodeString
  j.settle [raw.outcome, value.outcome]
  .ofRule (StringLiteral.ofRaw (← raw.demand))

/-- The decimal that a number of JSON stands for.  What is no integer of 64 bits is taken as a
float. -/
def JsonNumber.toDecimal? : JsonNumber → Option RawDecimal
  | .integer n =>
    if Int64.minValue.toInt ≤ n ∧ n < UInt64.size then some (.ofInt n)
    else RawDecimal.read? (floatText (floatOfDigits (n < 0) n.natAbs 0))
  | .real digits exponent =>
    RawDecimal.read? (floatText (floatOfDigits (digits < 0) digits.natAbs exponent))

/-- A decimal, as a number or as text. -/
def RawDecimal.decode : Json → TreeDecoding RawDecimal
  | .string s => .demand (RawDecimal.read? s.toList)
  | .number n => .demand n.toDecimal?
  | _ => .wrongShape

/-- The number literal of a text, if it denotes the given value. -/
def NumberLiteral.ofRawWithValue (raw : String) (value : Option RawDecimal) :
    Except TreeError NumberLiteral := do
  let literal ← NumberLiteral.ofRaw raw
  match value with
  | none => return literal
  | some value =>
    if value.Denotes literal.value then return literal
    else
      .error (.invalidNumber raw
        ("value " ++ String.ofList value.text ++ " does not match the raw text"))

/-- A number literal. -/
def NumberLiteral.decode (j : Json) : TreeDecoding NumberLiteral := do
  let value := j.part 0 "value" (decodeOption RawDecimal.decode)
  let raw := j.part 1 "raw" decodeString
  j.settle [raw.outcome, value.outcome]
  .ofRule (NumberLiteral.ofRawWithValue (← raw.demand) (← value.join))

/-- A literal. -/
def Literal.decode (place : TagPlace) (j : Json) : TreeDecoding Literal := do
  match ← j.decodeTag ["StringLiteral", "NumberLiteral"] place with
  | "StringLiteral" => .string <$> StringLiteral.decode j.untagged
  | "NumberLiteral" => .number <$> NumberLiteral.decode j.untagged
  | _ => .wrongShape

/-- A named argument. -/
def NamedArgument.decode (place : TagPlace) (j : Json) : TreeDecoding NamedArgument := do
  let name := j.part 0 "name" Identifier.decode
  let value := j.part 1 "value" (Literal.decode place)
  j.settle [name.outcome, value.outcome]
  return ⟨← name.demand, ← value.demand⟩

/-- The key of a variant. -/
def VariantKey.decode (place : TagPlace) (j : Json) : TreeDecoding VariantKey := do
  match ← j.decodeTag ["Identifier", "NumberLiteral"] place with
  | "Identifier" => .identifier <$> Identifier.decode j.untagged
  | "NumberLiteral" => .number <$> NumberLiteral.decode j.untagged
  | _ => .wrongShape

/-! ## Expressions -/

/-- The tags of expressions. -/
def Expression.tags : List String :=
  ["StringLiteral", "NumberLiteral", "VariableReference", "MessageReference", "TermReference",
    "FunctionReference", "SelectExpression", "Placeable"]

mutual

/-- An expression. -/
def Expression.decode (place : TagPlace) (j : Json) : TreeDecoding Expression := do
  let parts := j.untagged
  have _hparts : sizeOf parts ≤ sizeOf j := j.sizeOf_untagged_le
  match ← j.decodeTag Expression.tags place with
  | "StringLiteral" => .string <$> StringLiteral.decode parts
  | "NumberLiteral" => .number <$> NumberLiteral.decode parts
  | "VariableReference" =>
    let id := parts.part 0 "id" Identifier.decode
    parts.settle [id.outcome]
    return .var (← id.demand)
  | "MessageReference" =>
    let id := parts.part 0 "id" Identifier.decode
    let attr := parts.part 1 "attribute" (decodeOption Identifier.decode)
    parts.settle [attr.outcome, id.outcome]
    return .message (← id.demand) (← attr.join)
  | "TermReference" =>
    let id := parts.part 0 "id" Identifier.decode
    let attr := parts.part 1 "attribute" (decodeOption Identifier.decode)
    let arguments := parts.partWith 2 "arguments" fun v _h =>
      v.unlessNull (CallArguments.decode .within v)
    parts.settle [arguments.outcome, attr.outcome, id.outcome]
    return .term (← id.demand) (← attr.join) (← arguments.join)
  | "FunctionReference" =>
    let id := parts.part 0 "id" Identifier.decode
    let arguments := parts.partWith 1 "arguments" fun v _h => CallArguments.decode .within v
    parts.settle [arguments.outcome, id.outcome]
    return .function (← id.demand) (← arguments.demand)
  | "SelectExpression" =>
    let selector := parts.partWith 0 "selector" fun v _h => Expression.decode .within v
    let variants := parts.partWith 1 "variants" fun v _h =>
      v.listWith fun v _h => Variant.decode .within v
    parts.settle [selector.outcome, variants.outcome]
    .select <$> .ofRule (Selection.build (← selector.demand) (← variants.demand))
  | "Placeable" =>
    let inner := parts.partWith 0 "expression" fun v _h => Expression.decode .within v
    parts.settle [inner.outcome]
    return .placeable (← inner.demand)
  | _ => .wrongShape
termination_by sizeOf j

/-- Call arguments. -/
def CallArguments.decode (place : TagPlace) (j : Json) : TreeDecoding CallArguments := do
  let positional := j.partWith 0 "positional" fun v _h =>
    v.listWith fun v _h => Expression.decode place v
  let named := j.part 1 "named" (decodeList (NamedArgument.decode place))
  j.settle [named.outcome, positional.outcome] 0
  .ofRule (CallArguments.build (← positional.getD []) (← named.getD []))
termination_by sizeOf j

/-- A variant. -/
def Variant.decode (place : TagPlace) (j : Json) : TreeDecoding Variant := do
  let key := j.part 0 "key" (VariantKey.decode place)
  let value := j.partWith 1 "value" fun v _h => Pattern.decode place v
  let isDefault := j.part 2 "default" decodeBool
  j.settle [isDefault.outcome, key.outcome, value.outcome]
  return ⟨← key.demand, ← value.demand, ← isDefault.demand⟩
termination_by sizeOf j

/-- A pattern. -/
def Pattern.decode (place : TagPlace) (j : Json) : TreeDecoding Pattern := do
  let elements := j.partWith 0 "elements" fun v _h =>
    v.listWith fun v _h => PatternElement.decode place v
  j.settle [elements.outcome]
  elements.demand
termination_by sizeOf j

/-- An element of a pattern. -/
def PatternElement.decode (place : TagPlace) (j : Json) : TreeDecoding PatternElement := do
  let parts := j.untagged
  have _hparts : sizeOf parts ≤ sizeOf j := j.sizeOf_untagged_le
  match ← j.decodeTag ["TextElement", "Placeable"] place with
  | "TextElement" =>
    let value := parts.part 0 "value" decodeString
    parts.settle [value.outcome]
    return .text (← value.demand)
  | "Placeable" =>
    let inner := parts.partWith 0 "expression" fun v _h => Expression.decode .within v
    parts.settle [inner.outcome]
    return .placeable (← inner.demand)
  | _ => .wrongShape
termination_by sizeOf j

end

/-! ## One level of decoding -/

section Levels

variable (place : TagPlace) (j : Json)

/-- An expression is decoded over the decoders for what it holds. -/
theorem Expression.decode_eq : Expression.decode place j = (do
    let parts := j.untagged
    match ← j.decodeTag Expression.tags place with
    | "StringLiteral" => .string <$> StringLiteral.decode parts
    | "NumberLiteral" => .number <$> NumberLiteral.decode parts
    | "VariableReference" =>
      let id := parts.part 0 "id" Identifier.decode
      parts.settle [id.outcome]
      return .var (← id.demand)
    | "MessageReference" =>
      let id := parts.part 0 "id" Identifier.decode
      let attr := parts.part 1 "attribute" (decodeOption Identifier.decode)
      parts.settle [attr.outcome, id.outcome]
      return .message (← id.demand) (← attr.join)
    | "TermReference" =>
      let id := parts.part 0 "id" Identifier.decode
      let attr := parts.part 1 "attribute" (decodeOption Identifier.decode)
      let arguments := parts.part 2 "arguments" (decodeOption (CallArguments.decode .within))
      parts.settle [arguments.outcome, attr.outcome, id.outcome]
      return .term (← id.demand) (← attr.join) (← arguments.join)
    | "FunctionReference" =>
      let id := parts.part 0 "id" Identifier.decode
      let arguments := parts.part 1 "arguments" (CallArguments.decode .within)
      parts.settle [arguments.outcome, id.outcome]
      return .function (← id.demand) (← arguments.demand)
    | "SelectExpression" =>
      let selector := parts.part 0 "selector" (Expression.decode .within)
      let variants := parts.part 1 "variants" (decodeList (Variant.decode .within))
      parts.settle [selector.outcome, variants.outcome]
      .select <$> .ofRule (Selection.build (← selector.demand) (← variants.demand))
    | "Placeable" =>
      let inner := parts.part 0 "expression" (Expression.decode .within)
      parts.settle [inner.outcome]
      return .placeable (← inner.demand)
    | _ => .wrongShape) := by
  rw [Expression.decode]
  rfl

/-- The decoder of call arguments without its proofs of termination: both lists are read member by
member. -/
theorem CallArguments.decode_eq : CallArguments.decode place j = (do
    let positional := j.part 0 "positional" (decodeList (Expression.decode place))
    let named := j.part 1 "named" (decodeList (NamedArgument.decode place))
    j.settle [named.outcome, positional.outcome] 0
    .ofRule (CallArguments.build (← positional.getD []) (← named.getD []))) := by
  rw [CallArguments.decode]
  rfl

/-- The decoder of a variant without its proofs of termination. -/
theorem Variant.decode_eq : Variant.decode place j = (do
    let key := j.part 0 "key" (VariantKey.decode place)
    let value := j.part 1 "value" (Pattern.decode place)
    let isDefault := j.part 2 "default" decodeBool
    j.settle [isDefault.outcome, key.outcome, value.outcome]
    return ⟨← key.demand, ← value.demand, ← isDefault.demand⟩) := by
  rw [Variant.decode]
  rfl

/-- The decoder of a pattern without its proofs of termination: elements are read one by one. -/
theorem Pattern.decode_eq : Pattern.decode place j = (do
    let elements := j.part 0 "elements" (decodeList (PatternElement.decode place))
    j.settle [elements.outcome]
    elements.demand) := by
  rw [Pattern.decode]
  rfl

/-- The decoder of a pattern element without its proofs of termination, one case for each tag. -/
theorem PatternElement.decode_eq : PatternElement.decode place j = (do
    let parts := j.untagged
    match ← j.decodeTag ["TextElement", "Placeable"] place with
    | "TextElement" =>
      let value := parts.part 0 "value" decodeString
      parts.settle [value.outcome]
      return .text (← value.demand)
    | "Placeable" =>
      let inner := parts.part 0 "expression" (Expression.decode .within)
      parts.settle [inner.outcome]
      return .placeable (← inner.demand)
    | _ => .wrongShape) := by
  rw [PatternElement.decode]
  rfl

end Levels

/-! ## Entries -/

/-- An attribute. -/
def Attribute.decode (j : Json) : TreeDecoding Attribute := do
  let id := j.part 0 "id" Identifier.decode
  let value := j.part 1 "value" (Pattern.decode .within)
  j.settle [id.outcome, value.outcome]
  return ⟨← id.demand, ← value.demand⟩

/-- A comment's level. -/
def CommentLevel.decode (j : Json) : TreeDecoding CommentLevel := do
  match ← decodeName j with
  | "Comment" => return .comment
  | "Group" => return .group
  | "Resource" => return .resource
  | _ => .wrongShape

/-- A comment. -/
def Comment.decode (j : Json) : TreeDecoding Comment := do
  let level := j.part 0 "level" CommentLevel.decode
  let content := j.part 1 "content" decodeString
  j.settle [content.outcome, level.outcome]
  return ⟨← level.demand, ← content.demand⟩

/-- A message. -/
def Message.decode (j : Json) : TreeDecoding Message := do
  let id := j.part 0 "id" Identifier.decode
  let value := j.part 1 "value" (decodeOption (Pattern.decode .within))
  let attributes := j.part 2 "attributes" (decodeList Attribute.decode)
  let comment := j.part 3 "comment" (decodeOption Comment.decode)
  j.settle [attributes.outcome, comment.outcome, id.outcome, value.outcome]
  return ⟨← id.demand, ← value.join, ← attributes.demand, ← comment.join⟩

/-- A term. -/
def Term.decode (j : Json) : TreeDecoding Term := do
  let id := j.part 0 "id" Identifier.decode
  let value := j.part 1 "value" (Pattern.decode .within)
  let attributes := j.part 2 "attributes" (decodeList Attribute.decode)
  let comment := j.part 3 "comment" (decodeOption Comment.decode)
  j.settle [attributes.outcome, comment.outcome, id.outcome, value.outcome]
  return ⟨← id.demand, ← value.demand, ← attributes.demand, ← comment.join⟩

/-- An annotation's code. -/
def AnnotationCode.decode (j : Json) : TreeDecoding AnnotationCode := do
  match ← decodeName j with
  | "ParseJunk" => return .unreadable
  | "NestingDepthExceeded" => return .nestedTooDeep
  | "ParseErrorLimit" => return .tooManyErrors
  | "SourceTooLarge" => return .sourceTooLarge
  | _ => .wrongShape

/-- An annotation. -/
def Annotation.decode (j : Json) : TreeDecoding Annotation := do
  let code := j.part 0 "code" AnnotationCode.decode
  let message := j.part 1 "message" decodeString
  let span := j.part 2 "span" Span.decode
  j.settle [code.outcome, message.outcome, span.outcome]
  return ⟨← code.demand, ← message.demand, ← span.demand⟩

/-- Junk. -/
def Junk.decode (j : Json) : TreeDecoding Junk := do
  let content := j.part 0 "content" decodeString
  let annotations := j.part 1 "annotations" (decodeList Annotation.decode)
  let span := j.part 2 "span" Span.decode
  j.settle [annotations.outcome, content.outcome, span.outcome]
  return ⟨← content.demand, ← annotations.demand, ← span.demand⟩

/-- An entry. -/
def Entry.decode (j : Json) : TreeDecoding Entry := do
  match ← j.decodeTag ["Message", "Term", "Comment", "Junk"] .alone with
  | "Message" => .message <$> Message.decode j.untagged
  | "Term" => .term <$> Term.decode j.untagged
  | "Comment" => .comment <$> Comment.decode j.untagged
  | "Junk" => .junk <$> Junk.decode j.untagged
  | _ => .wrongShape

/-- A resource. -/
def Resource.decode (j : Json) : TreeDecoding Resource := do
  let entries := j.part 0 "entries" (decodeList Entry.decode)
  j.settle [entries.outcome]
  return ⟨← entries.demand⟩

end Fluent
