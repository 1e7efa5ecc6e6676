/-
# Trees are decoded back

A tree that keeps the rules of the checked constructors is decoded from its JSON form as itself: no
check of the decoder refuses it, and what the form leaves out, such as the place of the default
variant, is found again.

* `NumberLiteral.decode_fields`, `StringLiteral.decode_fields` : the values of literals are those of
  their texts;
* `Expression.decode_encode` : expressions and what they hold are decoded back;
* `Resource.decode_encode` : so are whole resources.
-/
import Fluent.Proofs.Json.Fields
import Fluent.Proofs.Number.DecimalText
import Fluent.Proofs.Tree.Rules
import Fluent.Tree.Decode

namespace Fluent

open Json (decodeString decodeBool decodeNat decodeList decodeOption decodeName TagPlace HasFields
  hasFields_object hasFields_tagged decodeTag_tagged_bind untagged_tagged decodeList_map
  decodeList_cons decodeOption_ofOption decodeOption_of_ne_null decodeString_string decodeBool_bool
  decodeNat_ofNat)

/-! ## Leaves -/

section Leaves

variable {j : Json} {place : TagPlace}

/-- An identifier is decoded from its fields. -/
theorem Identifier.decode_fields {id : Identifier} (hj : j.HasFields id.fields) :
    Identifier.decode j = .ok id := by
  obtain ⟨all, rfl⟩ := hj.object
  rw [Identifier.decode, hj.part "name" rfl (decodeString_string id.name)]
  rfl

theorem Identifier.decode_encode (id : Identifier) : Identifier.decode id.encode = .ok id :=
  Identifier.decode_fields (hasFields_object _)

/-- An encoded span is decoded as itself, if its ends fit into their type. -/
theorem Span.decode_encode {s : Span} (h : TreeRules.checked.span s) :
    Span.decode s.encode = .ok s := by
  have hj := hasFields_object [("start", Json.ofNat s.start), ("end", Json.ofNat s.stop)]
  rw [Span.decode, Span.encode, hj.part "start" rfl (decodeNat_ofNat h.1),
    hj.part "end" rfl (decodeNat_ofNat h.2)]
  rfl

/-- A string literal is decoded from its fields, if its raw text spells its value. -/
theorem StringLiteral.decode_fields {s : StringLiteral} (h : s.Checked)
    (hj : j.HasFields s.fields) : StringLiteral.decode j = .ok s := by
  obtain ⟨all, rfl⟩ := hj.object
  rw [StringLiteral.decode, hj.part "value" rfl (decodeString_string s.value),
    hj.part "raw" rfl (decodeString_string s.raw)]
  exact Decoding.ofRule_eq_ok.2 h

/-- A number literal is decoded from its fields, if it is what its raw text reads as. -/
theorem NumberLiteral.decode_fields {n : NumberLiteral} (h : n.Checked)
    (hj : j.HasFields n.fields) : NumberLiteral.decode j = .ok n := by
  -- the value is written as a text, which is read as the same digits
  have hvalue : decodeOption RawDecimal.decode (.string (String.ofList n.value.text)) =
      .ok (some (.ofDecimal n.value)) := by
    show some <$> Decoding.demand (RawDecimal.read? (String.ofList n.value.text).toList) = _
    rw [String.toList_ofList, RawDecimal.read?_text]
    rfl
  have hliteral : NumberLiteral.ofRawWithValue n.raw (some (.ofDecimal n.value)) = .ok n := by
    rw [NumberLiteral.ofRawWithValue, h]
    exact if_pos (RawDecimal.denotes_ofDecimal n.value)
  obtain ⟨all, rfl⟩ := hj.object
  rw [NumberLiteral.decode, hj.part "value" rfl hvalue,
    hj.part "raw" rfl (decodeString_string n.raw)]
  exact Decoding.ofRule_eq_ok.2 hliteral

theorem Literal.decode_encode {l : Literal} (h : l.Checked) :
    Literal.decode place l.encode = .ok l := by
  cases l with
  | string s =>
    rw [Literal.decode, Literal.encode, decodeTag_tagged_bind]
    exact map_eq_ok.2 ⟨s, StringLiteral.decode_fields h (hasFields_tagged _ _ rfl), rfl⟩
  | number n =>
    rw [Literal.decode, Literal.encode, decodeTag_tagged_bind]
    exact map_eq_ok.2 ⟨n, NumberLiteral.decode_fields h (hasFields_tagged _ _ rfl), rfl⟩

theorem NamedArgument.decode_encode {a : NamedArgument} (h : a.Keeps .checked) :
    NamedArgument.decode place a.encode = .ok a := by
  have hj := hasFields_object [("name", a.name.encode), ("value", a.value.encode)]
  rw [NamedArgument.decode, NamedArgument.encode, hj.part "name" rfl a.name.decode_encode,
    hj.part "value" rfl (Literal.decode_encode h.value)]
  rfl

theorem VariantKey.decode_encode {key : VariantKey} (h : key.Keeps .checked) :
    VariantKey.decode place key.encode = .ok key := by
  cases key with
  | identifier id =>
    rw [VariantKey.decode, VariantKey.encode, decodeTag_tagged_bind]
    exact map_eq_ok.2 ⟨id, Identifier.decode_fields (hasFields_tagged "Identifier" _ rfl), rfl⟩
  | number n =>
    rw [VariantKey.decode, VariantKey.encode, decodeTag_tagged_bind]
    exact map_eq_ok.2 ⟨n, NumberLiteral.decode_fields h (hasFields_tagged _ _ rfl), rfl⟩

/-- An encoded attribute name, or its absence, is decoded as itself. -/
theorem decode_accessor (attr : Option Identifier) :
    decodeOption Identifier.decode (.ofOption Identifier.encode attr) = .ok attr :=
  decodeOption_ofOption fun a _ => ⟨nofun, a.decode_encode⟩

end Leaves

/-- Call arguments are written as an object. -/
theorem CallArguments.encode_ne_null (a : CallArguments) : a.encode ≠ .null := by
  cases a
  rw [CallArguments.encode]
  nofun

/-- A pattern is decoded back if its elements are. -/
theorem Pattern.decode_of_elements {place : TagPlace} {p : Pattern}
    (h : decodeList (PatternElement.decode place) (.array (encodeElements p)) = .ok p) :
    Pattern.decode place p.encode = .ok p := by
  rw [Pattern.decode_eq, Pattern.encode, (hasFields_object _).part "elements" rfl h]
  rfl

/-! ## Expressions -/

mutual

/-- **Expressions are decoded back**, with all that they hold. -/
theorem Expression.decode_encode (place : TagPlace) :
    ∀ e : Expression, e.Keeps .checked → Expression.decode place e.encode = .ok e
  | .string s, h => by
    rw [Expression.encode, Expression.decode_eq, decodeTag_tagged_bind]
    exact map_eq_ok.2 ⟨s, StringLiteral.decode_fields h (hasFields_tagged _ _ rfl), rfl⟩
  | .number n, h => by
    rw [Expression.encode, Expression.decode_eq, decodeTag_tagged_bind]
    exact map_eq_ok.2 ⟨n, NumberLiteral.decode_fields h (hasFields_tagged _ _ rfl), rfl⟩
  | .var id, _ => by
    have hj := hasFields_tagged "VariableReference" [("id", id.encode)] rfl
    rw [Expression.encode, Expression.decode_eq, decodeTag_tagged_bind]
    dsimp only [untagged_tagged]
    rw [hj.part "id" rfl id.decode_encode]
    rfl
  | .message id attr, _ => by
    have hj := hasFields_tagged "MessageReference"
      [("id", id.encode), ("attribute", .ofOption Identifier.encode attr)] rfl
    rw [Expression.encode, Expression.decode_eq, decodeTag_tagged_bind]
    dsimp only [untagged_tagged]
    rw [hj.part "attribute" rfl (decode_accessor attr), hj.part "id" rfl id.decode_encode]
    rfl
  | .term id attr none, _ => by
    have hj := hasFields_tagged "TermReference"
      [("id", id.encode), ("attribute", .ofOption Identifier.encode attr),
        ("arguments", .null)] rfl
    -- absent arguments are written as null
    have harguments : decodeOption (CallArguments.decode .within) .null = .ok none := rfl
    rw [Expression.encode, Expression.decode_eq, decodeTag_tagged_bind]
    dsimp only [untagged_tagged]
    rw [hj.part "arguments" rfl harguments, hj.part "attribute" rfl (decode_accessor attr),
      hj.part "id" rfl id.decode_encode]
    rfl
  | .term id attr (some arguments), ⟨_, h⟩ => by
    have hj := hasFields_tagged "TermReference"
      [("id", id.encode), ("attribute", .ofOption Identifier.encode attr),
        ("arguments", arguments.encode)] rfl
    have harguments : decodeOption (CallArguments.decode .within) arguments.encode =
        .ok (some arguments) :=
      decodeOption_of_ne_null arguments.encode_ne_null
        (CallArguments.decode_encode .within arguments h)
    rw [Expression.encode, Expression.decode_eq, decodeTag_tagged_bind]
    dsimp only [untagged_tagged]
    rw [hj.part "arguments" rfl harguments, hj.part "attribute" rfl (decode_accessor attr),
      hj.part "id" rfl id.decode_encode]
    rfl
  | .function id arguments, ⟨_, h⟩ => by
    have hj := hasFields_tagged "FunctionReference"
      [("id", id.encode), ("arguments", arguments.encode)] rfl
    rw [Expression.encode, Expression.decode_eq, decodeTag_tagged_bind]
    dsimp only [untagged_tagged]
    rw [hj.part "arguments" rfl (CallArguments.decode_encode .within arguments h),
      hj.part "id" rfl id.decode_encode]
    rfl
  | .select ⟨selector, variants, index⟩, ⟨hchecked, hselector, hvariants⟩ => by
    have hj := hasFields_tagged "SelectExpression"
      [("selector", selector.encode), ("variants", .array (encodeVariants variants))]
      rfl
    rw [Expression.encode, Selection.fields, Expression.decode_eq, decodeTag_tagged_bind]
    dsimp only [untagged_tagged]
    rw [hj.part "selector" rfl (Expression.decode_encode .within selector hselector),
      hj.part "variants" rfl (decode_encodeVariants .within variants hvariants)]
    -- the place of the default is not written; building the selection finds it again
    have hbuild := Selection.build_eq_ok_iff.2 ⟨hchecked, rfl, rfl⟩
    exact map_eq_ok.2 ⟨_, Decoding.ofRule_eq_ok.2 hbuild, rfl⟩
  | .placeable inner, ⟨_, h⟩ => by
    have hj := hasFields_tagged "Placeable" [("expression", inner.encode)] rfl
    rw [Expression.encode, Expression.decode_eq, decodeTag_tagged_bind]
    dsimp only [untagged_tagged]
    rw [hj.part "expression" rfl (Expression.decode_encode .within inner h)]
    rfl

theorem CallArguments.decode_encode (place : TagPlace) :
    ∀ a : CallArguments, a.Keeps .checked → CallArguments.decode place a.encode = .ok a
  | ⟨positional, named⟩, ⟨hchecked, hpos, hnamed⟩ => by
    have hj := hasFields_object [("positional", .array (encodeExpressions positional)),
      ("named", .array (named.map NamedArgument.encode))]
    have hlist : decodeList (NamedArgument.decode place)
        (.array (named.map NamedArgument.encode)) = .ok named :=
      decodeList_map fun a ha => NamedArgument.decode_encode (hnamed a ha)
    rw [CallArguments.encode, CallArguments.decode_eq,
      hj.part "positional" rfl (decode_encodeExpressions place positional hpos),
      hj.part "named" rfl hlist]
    exact Decoding.ofRule_eq_ok.2 (CallArguments.build_eq_ok_iff.2 ⟨hchecked, rfl⟩)

theorem Variant.decode_encode (place : TagPlace) :
    ∀ v : Variant, v.Keeps .checked → Variant.decode place v.encode = .ok v
  | ⟨key, value, isDefault⟩, ⟨hkey, _, hvalue⟩ => by
    have hj := hasFields_object [("key", key.encode),
      ("value", .object [("elements", .array (encodeElements value))]),
      ("default", .bool isDefault)]
    have hpattern : Pattern.decode place (.object [("elements", .array (encodeElements value))]) =
        .ok value :=
      Pattern.decode_of_elements (decode_encodeElements place value hvalue)
    rw [Variant.encode, Variant.decode_eq, hj.part "key" rfl (VariantKey.decode_encode hkey),
      hj.part "value" rfl hpattern, hj.part "default" rfl (decodeBool_bool isDefault)]
    rfl

theorem PatternElement.decode_encode (place : TagPlace) :
    ∀ x : PatternElement, x.Keeps .checked → PatternElement.decode place x.encode = .ok x
  | .text value, _ => by
    have hj := hasFields_tagged "TextElement" [("value", .string value)] rfl
    rw [PatternElement.encode, PatternElement.decode_eq, decodeTag_tagged_bind]
    dsimp only [untagged_tagged]
    rw [hj.part "value" rfl (decodeString_string value)]
    rfl
  | .placeable e, ⟨_, h⟩ => by
    have hj := hasFields_tagged "Placeable" [("expression", e.encode)] rfl
    rw [PatternElement.encode, PatternElement.decode_eq, decodeTag_tagged_bind]
    dsimp only [untagged_tagged]
    rw [hj.part "expression" rfl (Expression.decode_encode .within e h)]
    rfl

theorem decode_encodeExpressions (place : TagPlace) :
    ∀ es : List Expression, argumentsKeep .checked es →
      decodeList (Expression.decode place) (.array (encodeExpressions es)) = .ok es
  | [], _ => rfl
  | e :: es, ⟨h, hs⟩ =>
    decodeList_cons (Expression.decode_encode place e h) (decode_encodeExpressions place es hs)

theorem decode_encodeVariants (place : TagPlace) :
    ∀ vs : List Variant, variantsKeep .checked vs →
      decodeList (Variant.decode place) (.array (encodeVariants vs)) = .ok vs
  | [], _ => rfl
  | v :: vs, ⟨h, hs⟩ =>
    decodeList_cons (Variant.decode_encode place v h) (decode_encodeVariants place vs hs)

theorem decode_encodeElements (place : TagPlace) :
    ∀ xs : List PatternElement, elementsKeep .checked xs →
      decodeList (PatternElement.decode place) (.array (encodeElements xs)) = .ok xs
  | [], _ => rfl
  | x :: xs, ⟨h, hs⟩ =>
    decodeList_cons (PatternElement.decode_encode place x h) (decode_encodeElements place xs hs)

end

/-! ## Entries -/

theorem Pattern.decode_encode {p : Pattern} (h : Pattern.Keeps .checked p) :
    Pattern.decode .within p.encode = .ok p :=
  Pattern.decode_of_elements (decode_encodeElements .within p (elementsKeep_iff.2 h.2))

theorem Attribute.decode_encode {a : Attribute} (h : a.Keeps .checked) :
    Attribute.decode a.encode = .ok a := by
  have hj := hasFields_object [("id", a.id.encode), ("value", Pattern.encode a.value)]
  rw [Attribute.decode, Attribute.encode, hj.part "id" rfl a.id.decode_encode,
    hj.part "value" rfl (Pattern.decode_encode h.value)]
  rfl

theorem decode_attributes {list : List Attribute} (h : ∀ a ∈ list, a.Keeps .checked) :
    decodeList Attribute.decode (.array (list.map Attribute.encode)) = .ok list :=
  decodeList_map fun a ha => Attribute.decode_encode (h a ha)

/-- The name of a comment level is decoded as this level. -/
theorem CommentLevel.decode_name (level : CommentLevel) :
    CommentLevel.decode (.string level.name) = .ok level := by
  cases level <;> rfl

section Entries

variable {j : Json}

/-- A comment is decoded from its fields. -/
theorem Comment.decode_fields (c : Comment) (hj : j.HasFields c.fields) :
    Comment.decode j = .ok c := by
  obtain ⟨all, rfl⟩ := hj.object
  rw [Comment.decode, hj.part "level" rfl c.level.decode_name,
    hj.part "content" rfl (decodeString_string c.content)]
  rfl

/-- An encoded comment, or its absence, is decoded as itself. -/
theorem decode_comment (comment : Option Comment) :
    decodeOption Comment.decode (.ofOption Comment.encode comment) = .ok comment :=
  decodeOption_ofOption fun c _ => ⟨nofun, c.decode_fields (hasFields_object _)⟩

/-- A message is decoded from its fields. -/
theorem Message.decode_fields {m : Message} (h : m.Keeps .checked) (hj : j.HasFields m.fields) :
    Message.decode j = .ok m := by
  have hvalue : decodeOption (Pattern.decode .within) (.ofOption Pattern.encode m.value) =
      .ok m.value :=
    decodeOption_ofOption fun p hp => ⟨nofun, Pattern.decode_encode (h.value p hp)⟩
  obtain ⟨all, rfl⟩ := hj.object
  rw [Message.decode, hj.part "id" rfl m.id.decode_encode, hj.part "value" rfl hvalue,
    hj.part "attributes" rfl (decode_attributes h.attributes),
    hj.part "comment" rfl (decode_comment m.comment)]
  rfl

/-- A term is decoded from its fields. -/
theorem Term.decode_fields {t : Term} (h : t.Keeps .checked) (hj : j.HasFields t.fields) :
    Term.decode j = .ok t := by
  obtain ⟨all, rfl⟩ := hj.object
  rw [Term.decode, hj.part "id" rfl t.id.decode_encode,
    hj.part "value" rfl (Pattern.decode_encode h.value),
    hj.part "attributes" rfl (decode_attributes h.attributes),
    hj.part "comment" rfl (decode_comment t.comment)]
  rfl

/-- The name of an annotation code is decoded as this code. -/
theorem AnnotationCode.decode_name (code : AnnotationCode) :
    AnnotationCode.decode (.string code.name) = .ok code := by
  cases code <;> rfl

theorem Annotation.decode_encode {a : Annotation} (h : TreeRules.checked.span a.span) :
    Annotation.decode a.encode = .ok a := by
  have hj := hasFields_object [("code", .string a.code.name), ("message", .string a.message),
    ("span", a.span.encode)]
  unfold Annotation.decode Annotation.encode
  rw [hj.part "code" rfl a.code.decode_name, hj.part "message" rfl (decodeString_string a.message),
    hj.part "span" rfl (Span.decode_encode h)]
  rfl

/-- Junk is decoded from its fields. -/
theorem Junk.decode_fields {junk : Junk} (h : junk.Keeps .checked)
    (hj : j.HasFields junk.fields) : Junk.decode j = .ok junk := by
  have hannotations : decodeList Annotation.decode
      (.array (junk.annotations.map Annotation.encode)) = .ok junk.annotations :=
    decodeList_map fun a ha => Annotation.decode_encode (h.annotations a ha)
  obtain ⟨all, rfl⟩ := hj.object
  rw [Junk.decode, hj.part "content" rfl (decodeString_string junk.content),
    hj.part "annotations" rfl hannotations,
    hj.part "span" rfl (Span.decode_encode h.span)]
  rfl

/-- Entries are decoded back. -/
theorem Entry.decode_encode {e : Entry} (h : e.Keeps .checked) : Entry.decode e.encode = .ok e := by
  cases e with
  | message m =>
    rw [Entry.encode, Entry.decode, decodeTag_tagged_bind]
    exact map_eq_ok.2 ⟨m, Message.decode_fields h (hasFields_tagged "Message" _ rfl), rfl⟩
  | term t =>
    rw [Entry.encode, Entry.decode, decodeTag_tagged_bind]
    exact map_eq_ok.2 ⟨t, Term.decode_fields h (hasFields_tagged "Term" _ rfl), rfl⟩
  | comment c =>
    rw [Entry.encode, Entry.decode, decodeTag_tagged_bind]
    exact map_eq_ok.2 ⟨c, c.decode_fields (hasFields_tagged "Comment" _ rfl), rfl⟩
  | junk junk =>
    rw [Entry.encode, Entry.decode, decodeTag_tagged_bind]
    exact map_eq_ok.2 ⟨junk, Junk.decode_fields h (hasFields_tagged "Junk" _ rfl), rfl⟩

end Entries

/-- **Resources are decoded back**, junk included, if they keep the rules of the checked
constructors. -/
theorem Resource.decode_encode {r : Resource} (h : r.Keeps .checked) :
    Resource.decode r.encode = .ok r := by
  have hj := hasFields_object [("entries", .array (r.entries.map Entry.encode))]
  have hentries : decodeList Entry.decode (.array (r.entries.map Entry.encode)) = .ok r.entries :=
    decodeList_map fun e he => Entry.decode_encode (h e he)
  rw [Resource.decode, Resource.encode, hj.part "entries" rfl hentries]
  rfl

end Fluent
