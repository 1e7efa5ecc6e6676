/-
# Rules that hold at every depth

Checked constructors keep the rules of literals, selections and call arguments.  `TreeRules` adds
rules for other parts of a tree: for its names, patterns, placeables and messages, and for the spans
of its junk.  A tree keeps such rules if each of its parts does, however deep it lies.

* `Expression.Keeps` and its companions, up to `Resource.Keeps` : a tree keeps rules;
* `Resource.Keeps.mono` : a tree that keeps rules keeps weaker ones.
-/
import Fluent.Proofs.Tree.Constructors

namespace Fluent

/-! ## Rules for trees -/

/-- What is asked of the parts of a tree besides the rules of the checked constructors. -/
structure TreeRules where
  name : Identifier → Prop
  pattern : Pattern → Prop
  placed : Expression → Prop
  message : Message → Prop
  span : Span → Prop

/-- The rules of the checked constructors and no others, but for spans: their ends are numbers of 64
bits. -/
def TreeRules.checked : TreeRules where
  name _ := True
  pattern _ := True
  placed _ := True
  message _ := True
  span s := s.start < UInt64.size ∧ s.stop < UInt64.size

/-- A reference keeps the rules if its names do. -/
def TreeRules.Reference (rules : TreeRules) (id : Identifier) (attr : Option Identifier) : Prop :=
  rules.name id ∧ ∀ a, attr = some a → rules.name a

/-- A literal keeps the rules of its constructor. -/
def Literal.Checked : Literal → Prop
  | .string s => s.Checked
  | .number n => n.Checked

/-- A named argument keeps the rules. -/
structure NamedArgument.Keeps (rules : TreeRules) (a : NamedArgument) : Prop where
  name : rules.name a.name
  value : a.value.Checked

/-- A key keeps the rules. -/
def VariantKey.Keeps (rules : TreeRules) : VariantKey → Prop
  | .identifier id => rules.name id
  | .number n => n.Checked

mutual

/-- An expression keeps the rules. -/
def Expression.Keeps (rules : TreeRules) : Expression → Prop
  | .string s => s.Checked
  | .number n => n.Checked
  | .var id => rules.name id
  | .message id attr => rules.Reference id attr
  | .term id attr none => rules.Reference id attr
  | .term id attr (some arguments) => rules.Reference id attr ∧ arguments.Keeps rules
  | .function id arguments => rules.name id ∧ arguments.Keeps rules
  | .select selection => selection.Keeps rules
  | .placeable inner => rules.placed inner ∧ inner.Keeps rules

/-- Call arguments keep the rules. -/
def CallArguments.Keeps (rules : TreeRules) : CallArguments → Prop
  | ⟨positional, named⟩ => (CallArguments.mk positional named).Checked ∧
      argumentsKeep rules positional ∧ ∀ a ∈ named, a.Keeps rules

/-- A selection keeps the rules. -/
def Selection.Keeps (rules : TreeRules) : Selection → Prop
  | ⟨selector, variants, index⟩ => (Selection.mk selector variants index).Checked ∧
      selector.Keeps rules ∧ variantsKeep rules variants

/-- A variant keeps the rules. -/
def Variant.Keeps (rules : TreeRules) : Variant → Prop
  | ⟨key, value, _⟩ => key.Keeps rules ∧ rules.pattern value ∧ elementsKeep rules value

/-- An element of a pattern keeps the rules. -/
def PatternElement.Keeps (rules : TreeRules) : PatternElement → Prop
  | .text _ => True
  | .placeable expression => rules.placed expression ∧ expression.Keeps rules

/-- Arguments given by position keep the rules. -/
def argumentsKeep (rules : TreeRules) : List Expression → Prop
  | [] => True
  | e :: es => e.Keeps rules ∧ argumentsKeep rules es

/-- Variants keep the rules. -/
def variantsKeep (rules : TreeRules) : List Variant → Prop
  | [] => True
  | v :: vs => v.Keeps rules ∧ variantsKeep rules vs

/-- Elements keep the rules. -/
def elementsKeep (rules : TreeRules) : List PatternElement → Prop
  | [] => True
  | x :: xs => x.Keeps rules ∧ elementsKeep rules xs

end

/-- A pattern keeps the rules. -/
def Pattern.Keeps (rules : TreeRules) (p : Pattern) : Prop :=
  rules.pattern p ∧ ∀ x ∈ p, x.Keeps rules

/-- An attribute keeps the rules. -/
structure Attribute.Keeps (rules : TreeRules) (a : Attribute) : Prop where
  name : rules.name a.id
  value : Pattern.Keeps rules a.value

/-- A message keeps the rules. -/
structure Message.Keeps (rules : TreeRules) (m : Message) : Prop where
  name : rules.name m.id
  value : ∀ p, m.value = some p → Pattern.Keeps rules p
  attributes : ∀ a ∈ m.attributes, a.Keeps rules
  whole : rules.message m

/-- A term keeps the rules. -/
structure Term.Keeps (rules : TreeRules) (t : Term) : Prop where
  name : rules.name t.id
  value : Pattern.Keeps rules t.value
  attributes : ∀ a ∈ t.attributes, a.Keeps rules

/-- Junk keeps the rules. -/
structure Junk.Keeps (rules : TreeRules) (j : Junk) : Prop where
  span : rules.span j.span
  annotations : ∀ a ∈ j.annotations, rules.span a.span

/-- An entry keeps the rules. -/
def Entry.Keeps (rules : TreeRules) : Entry → Prop
  | .message m => m.Keeps rules
  | .term t => t.Keeps rules
  | .comment _ => True
  | .junk j => j.Keeps rules

/-- A resource keeps the rules. -/
def Resource.Keeps (rules : TreeRules) (r : Resource) : Prop :=
  ∀ e ∈ r.entries, e.Keeps rules

/-! ## Lists of parts -/

section Lists

variable {rules : TreeRules}

theorem argumentsKeep_iff {es : List Expression} :
    argumentsKeep rules es ↔ ∀ e ∈ es, e.Keeps rules := by
  induction es with
  | nil => simp [argumentsKeep]
  | cons e es ih => rw [argumentsKeep, ih, List.forall_mem_cons]

theorem variantsKeep_iff {vs : List Variant} :
    variantsKeep rules vs ↔ ∀ v ∈ vs, v.Keeps rules := by
  induction vs with
  | nil => simp [variantsKeep]
  | cons v vs ih => rw [variantsKeep, ih, List.forall_mem_cons]

theorem elementsKeep_iff {xs : List PatternElement} :
    elementsKeep rules xs ↔ ∀ x ∈ xs, x.Keeps rules := by
  induction xs with
  | nil => simp [elementsKeep]
  | cons x xs ih => rw [elementsKeep, ih, List.forall_mem_cons]

/-- Call arguments keep rules exactly when they pass their check and each of them does. -/
theorem CallArguments.keeps_iff {a : CallArguments} :
    a.Keeps rules ↔
      a.Checked ∧ (∀ e ∈ a.positional, e.Keeps rules) ∧ ∀ given ∈ a.named, given.Keeps rules := by
  cases a
  rw [CallArguments.Keeps, argumentsKeep_iff]

/-- A selection keeps rules exactly when it passes its check and its selector and variants do. -/
theorem Selection.keeps_iff {s : Selection} :
    s.Keeps rules ↔ s.Checked ∧ s.selector.Keeps rules ∧ ∀ v ∈ s.variants, v.Keeps rules := by
  cases s
  rw [Selection.Keeps, variantsKeep_iff]

/-- A variant keeps rules exactly when its key and its value do. -/
theorem Variant.keeps_iff {v : Variant} :
    v.Keeps rules ↔ v.key.Keeps rules ∧ Pattern.Keeps rules v.value := by
  cases v
  rw [Variant.Keeps, elementsKeep_iff, Pattern.Keeps]

end Lists

/-! ## Weaker rules -/

/-- What keeps the first rules keeps the second. -/
structure TreeRules.Implies (strong weak : TreeRules) : Prop where
  name : ∀ id, strong.name id → weak.name id
  pattern : ∀ p, strong.pattern p → weak.pattern p
  placed : ∀ e, strong.placed e → weak.placed e
  message : ∀ m, strong.message m → weak.message m
  span : ∀ s, strong.span s → weak.span s

section Weaker

variable {strong weak : TreeRules}

theorem TreeRules.Reference.mono {id : Identifier} {attr : Option Identifier}
    (himp : strong.Implies weak) (h : strong.Reference id attr) : weak.Reference id attr :=
  ⟨himp.name id h.1, fun a ha => himp.name a (h.2 a ha)⟩

theorem NamedArgument.Keeps.mono {a : NamedArgument} (himp : strong.Implies weak)
    (h : a.Keeps strong) : a.Keeps weak :=
  ⟨himp.name _ h.name, h.value⟩

theorem VariantKey.Keeps.mono {key : VariantKey} (himp : strong.Implies weak)
    (h : key.Keeps strong) : key.Keeps weak := by
  cases key with
  | identifier id => exact himp.name id h
  | number n => exact h

mutual

/-- An expression that keeps stronger rules keeps weaker ones. -/
theorem Expression.Keeps.mono (himp : strong.Implies weak) :
    ∀ e : Expression, e.Keeps strong → e.Keeps weak
  | .string _, h | .number _, h => h
  | .var id, h => himp.name id h
  | .message _ _, h | .term _ _ none, h => TreeRules.Reference.mono himp h
  | .term _ _ (some arguments), ⟨hid, h⟩ =>
    ⟨hid.mono himp, CallArguments.Keeps.mono himp arguments h⟩
  | .function id arguments, ⟨hid, h⟩ =>
    ⟨himp.name id hid, CallArguments.Keeps.mono himp arguments h⟩
  | .select selection, h => Selection.Keeps.mono himp selection h
  | .placeable inner, ⟨hplaced, h⟩ =>
    ⟨himp.placed inner hplaced, Expression.Keeps.mono himp inner h⟩

theorem CallArguments.Keeps.mono (himp : strong.Implies weak) :
    ∀ a : CallArguments, a.Keeps strong → a.Keeps weak
  | ⟨positional, _⟩, ⟨hchecked, hpos, hnamed⟩ =>
    ⟨hchecked, argumentsKeep_mono himp positional hpos, fun a ha => (hnamed a ha).mono himp⟩

theorem Selection.Keeps.mono (himp : strong.Implies weak) :
    ∀ s : Selection, s.Keeps strong → s.Keeps weak
  | ⟨selector, variants, _⟩, ⟨hchecked, hselector, hvariants⟩ =>
    ⟨hchecked, Expression.Keeps.mono himp selector hselector,
      variantsKeep_mono himp variants hvariants⟩

theorem Variant.Keeps.mono (himp : strong.Implies weak) :
    ∀ v : Variant, v.Keeps strong → v.Keeps weak
  | ⟨_, value, _⟩, ⟨hkey, hpattern, helements⟩ =>
    ⟨hkey.mono himp, himp.pattern value hpattern, elementsKeep_mono himp value helements⟩

theorem PatternElement.Keeps.mono (himp : strong.Implies weak) :
    ∀ x : PatternElement, x.Keeps strong → x.Keeps weak
  | .text _, h => h
  | .placeable e, ⟨hplaced, h⟩ => ⟨himp.placed e hplaced, Expression.Keeps.mono himp e h⟩

theorem argumentsKeep_mono (himp : strong.Implies weak) :
    ∀ es : List Expression, argumentsKeep strong es → argumentsKeep weak es
  | [], h => h
  | e :: es, ⟨h, hs⟩ => ⟨Expression.Keeps.mono himp e h, argumentsKeep_mono himp es hs⟩

theorem variantsKeep_mono (himp : strong.Implies weak) :
    ∀ vs : List Variant, variantsKeep strong vs → variantsKeep weak vs
  | [], h => h
  | v :: vs, ⟨h, hs⟩ => ⟨Variant.Keeps.mono himp v h, variantsKeep_mono himp vs hs⟩

theorem elementsKeep_mono (himp : strong.Implies weak) :
    ∀ xs : List PatternElement, elementsKeep strong xs → elementsKeep weak xs
  | [], h => h
  | x :: xs, ⟨h, hs⟩ => ⟨PatternElement.Keeps.mono himp x h, elementsKeep_mono himp xs hs⟩

end

theorem Pattern.Keeps.mono {p : Pattern} (himp : strong.Implies weak)
    (h : Pattern.Keeps strong p) : Pattern.Keeps weak p :=
  ⟨himp.pattern p h.1, fun x hx => PatternElement.Keeps.mono himp x (h.2 x hx)⟩

theorem Attribute.Keeps.mono {a : Attribute} (himp : strong.Implies weak)
    (h : a.Keeps strong) : a.Keeps weak :=
  ⟨himp.name _ h.name, h.value.mono himp⟩

theorem Entry.Keeps.mono {e : Entry} (himp : strong.Implies weak) (h : e.Keeps strong) :
    e.Keeps weak := by
  cases e with
  | message m =>
    exact ⟨himp.name _ h.name, fun p hp => (h.value p hp).mono himp,
      fun a ha => (h.attributes a ha).mono himp, himp.message m h.whole⟩
  | term t =>
    exact ⟨himp.name _ h.name, h.value.mono himp, fun a ha => (h.attributes a ha).mono himp⟩
  | comment _ => trivial
  | junk j => exact ⟨himp.span _ h.span, fun a ha => himp.span _ (h.annotations a ha)⟩

/-- A resource that keeps rules keeps weaker ones. -/
theorem Resource.Keeps.mono {r : Resource} (himp : strong.Implies weak) (h : r.Keeps strong) :
    r.Keeps weak :=
  fun e he => (h e he).mono himp

end Weaker

end Fluent
