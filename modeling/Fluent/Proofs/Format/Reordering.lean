/-
# Variants in another order

Trees, catalogs and sessions may differ in the order of variants only: a selection with different
keys has its variants in another order, wherever it stands.

* `Selection.Reordered` and its companions, up to `Session.Reordered` : some selections have their
  variants in another order;
* `Expression.Reordered.peeled`, `Level.choice?_congr` : what is left by that.
-/
import Mathlib.Data.List.Forall2
import Fluent.Proofs.Format.VariantKeys

namespace Fluent

/-! ## Trees with variants in another order -/

mutual

/-- The second expression is the first one with the variants of some selections in another
order. -/
inductive Expression.Reordered : Expression → Expression → Prop
  | same (e : Expression) : Expression.Reordered e e
  | term {id : Identifier} {attr : Option Identifier} {call call' : CallArguments}
      (h : CallArguments.Reordered call call') :
      Expression.Reordered (.term id attr (some call)) (.term id attr (some call'))
  | function {id : Identifier} {call call' : CallArguments}
      (h : CallArguments.Reordered call call') :
      Expression.Reordered (.function id call) (.function id call')
  | select {s s' : Selection} (h : Selection.Reordered s s') :
      Expression.Reordered (.select s) (.select s')
  | placeable {e e' : Expression} (h : Expression.Reordered e e') :
      Expression.Reordered (.placeable e) (.placeable e')

/-- So are call arguments. -/
inductive CallArguments.Reordered : CallArguments → CallArguments → Prop
  | mk {call call' : CallArguments}
      (positional : List.Forall₂ Expression.Reordered call.positional call'.positional)
      (named : call'.named = call.named) : CallArguments.Reordered call call'

/-- A selection has its own variants in another order, or some selections inside of it have. -/
inductive Selection.Reordered : Selection → Selection → Prop
  | outer {s s' : Selection} (h : s.Reorders s') : Selection.Reordered s s'
  | inner {s s' : Selection} (selector : Expression.Reordered s.selector s'.selector)
      (variants : List.Forall₂ Variant.Reordered s.variants s'.variants)
      (defaultIndex : s'.defaultIndex = s.defaultIndex) : Selection.Reordered s s'

/-- A variant keeps its key and its mark. -/
inductive Variant.Reordered : Variant → Variant → Prop
  | mk {v v' : Variant} (key : v'.key = v.key) (isDefault : v'.isDefault = v.isDefault)
      (value : List.Forall₂ PatternElement.Reordered v.value v'.value) : Variant.Reordered v v'

/-- A piece of a pattern keeps its text. -/
inductive PatternElement.Reordered : PatternElement → PatternElement → Prop
  | text (value : String) : PatternElement.Reordered (.text value) (.text value)
  | placeable {e e' : Expression} (h : Expression.Reordered e e') :
      PatternElement.Reordered (.placeable e) (.placeable e')

end

/-- The pattern with the variants of some selections in another order. -/
def Pattern.Reordered (p p' : Pattern) : Prop :=
  List.Forall₂ PatternElement.Reordered p p'

theorem PatternElement.Reordered.same (element : PatternElement) : element.Reordered element := by
  cases element with
  | text value => exact .text value
  | placeable e => exact .placeable (.same e)

theorem Pattern.Reordered.same (p : Pattern) : Pattern.Reordered p p :=
  List.forall₂_same.2 fun element _ => .same element

theorem Variant.Reordered.same (v : Variant) : v.Reordered v :=
  .mk rfl rfl (Pattern.Reordered.same v.value)

theorem CallArguments.Reordered.same (call : CallArguments) : call.Reordered call :=
  .mk (List.forall₂_same.2 fun e _ => .same e) rfl

theorem Selection.Reordered.same (s : Selection) : s.Reordered s :=
  .inner (.same s.selector) (List.forall₂_same.2 fun v _ => .same v) rfl

/-- Reordering within the variants leaves their keys as they are. -/
theorem keys_eq_of_reordered {variants variants' : List Variant}
    (h : List.Forall₂ Variant.Reordered variants variants') :
    variants'.map (·.key) = variants.map (·.key) := by
  induction h with
  | nil => rfl
  | cons hv _ ih =>
    obtain ⟨hkey, -, -⟩ := hv
    rw [List.map_cons, List.map_cons, hkey, ih]

/-- Lists related member by member have related members at each place, or none. -/
theorem rel_getElem?_of_forall₂ {α : Type} {R : α → α → Prop} {list list' : List α}
    (h : List.Forall₂ R list list') (index : Nat) : Option.Rel R list[index]? list'[index]? := by
  induction h generalizing index with
  | nil => exact .none
  | cons hfirst _ ih =>
    cases index with
    | zero => exact .some hfirst
    | succ index => simpa only [List.getElem?_cons_succ] using ih index

/-- Of two related options both are there, or neither. -/
theorem rel_cases {α β : Type} {R : α → β → Prop} {found : Option α} {found' : Option β}
    (h : Option.Rel R found found') :
    (found = none ∧ found' = none) ∨ ∃ a b, found = some a ∧ found' = some b ∧ R a b := by
  cases h with
  | none => exact .inl ⟨rfl, rfl⟩
  | some hab => exact .inr ⟨_, _, rfl, rfl, hab⟩

/-- Which variant is chosen is told by the keys. -/
theorem Level.choice?_congr (level : Level) {s s' : Selection}
    (hkeys : s'.variants.map (·.key) = s.variants.map (·.key))
    (hdefault : s'.defaultIndex = s.defaultIndex) (result : Resolved) :
    level.choice? s' result = level.choice? s result := by
  have hfind : ∀ p : VariantKey → Bool, s'.variants.findIdx? (fun v => p v.key) =
      s.variants.findIdx? fun v => p v.key := fun p => by
    have hmap := congrArg (List.findIdx? p) hkeys
    rwa [List.findIdx?_map, List.findIdx?_map] at hmap
  unfold choice? Selection.exactIndex? Selection.categoryIndex?
  simp only [hfind, hdefault]

namespace Expression.Reordered

variable {e e' : Expression}

/-- Taking the braces off keeps expressions related. -/
theorem peeled (h : e.Reordered e') : e.peeled.Reordered e'.peeled := by
  induction e using Expression.peeled.induct generalizing e' with
  | case1 inner ih =>
    cases h with
    | same => exact .same _
    | placeable h =>
      rw [Expression.peeled, Expression.peeled]
      exact ih h
  | case2 e he =>
    cases h with
    | same => exact .same _
    | placeable => exact absurd rfl (he _)
    | term h => exact .term h
    | function h => exact .function h
    | select h => exact .select h

/-- Reordering does not change which expressions are isolated. -/
theorem needsIsolation_eq (h : e.Reordered e') : e'.needsIsolation = e.needsIsolation := by
  cases h <;> rfl

end Expression.Reordered

/-! ## Entries and catalogs -/

/-- The same attribute, with the variants of some selections in another order. -/
structure Attribute.Reordered (a a' : Attribute) : Prop where
  id : a'.id = a.id
  value : Pattern.Reordered a.value a'.value

/-- The same message. -/
structure Message.Reordered (m m' : Message) : Prop where
  value : Option.Rel Pattern.Reordered m.value m'.value
  attributes : List.Forall₂ Attribute.Reordered m.attributes m'.attributes

/-- The same term. -/
structure Term.Reordered (t t' : Term) : Prop where
  value : Pattern.Reordered t.value t'.value
  attributes : List.Forall₂ Attribute.Reordered t.attributes t'.attributes

/-- The attributes of a name are related, or missing from both lists. -/
theorem findAttribute?_reordered {attributes attributes' : List Attribute} (name : String)
    (h : List.Forall₂ Attribute.Reordered attributes attributes') :
    Option.Rel Attribute.Reordered (findAttribute? name attributes)
      (findAttribute? name attributes') := by
  unfold findAttribute?
  induction h with
  | nil => exact .none
  | cons ha _ ih =>
    rw [List.find?_cons, List.find?_cons, ha.id]
    split
    · exact .some ha
    · exact ih

/-- The same messages and terms are defined, with the variants of some selections in another
order. -/
structure Catalog.Reordered (catalog catalog' : Catalog) : Prop where
  message : ∀ id, Option.Rel Message.Reordered (catalog.message? id) (catalog'.message? id)
  term : ∀ id, Option.Rel Term.Reordered (catalog.term? id) (catalog'.term? id)

/-- The formatters differ in the order of variants only. -/
structure Formatter.Reordered (formatter formatter' : Formatter) : Prop where
  catalog : formatter.catalog.Reordered formatter'.catalog
  rest : formatter' = { formatter with catalog := formatter'.catalog }

/-- Related formatters have the same limit. -/
theorem Formatter.Reordered.limit_eq {formatter formatter' : Formatter}
    (h : formatter.Reordered formatter') : formatter'.limit = formatter.limit := by
  rw [h.rest]
  rfl

/-- So do all formatters of the sessions. -/
def Session.Reordered (session session' : Session) : Prop :=
  List.Forall₂ Formatter.Reordered session.formatters session'.formatters

/-- A relation that holds of each value and itself holds of optional ones. -/
theorem rel_same {α : Type} {R : α → α → Prop} (h : ∀ a, R a a) (a : Option α) :
    Option.Rel R a a := by
  cases a with
  | none => exact .none
  | some a => exact .some (h a)

theorem Attribute.Reordered.same (a : Attribute) : a.Reordered a :=
  ⟨rfl, .same a.value⟩

theorem Message.Reordered.same (m : Message) : m.Reordered m :=
  ⟨rel_same .same _, List.forall₂_same.2 fun a _ => .same a⟩

theorem Term.Reordered.same (t : Term) : t.Reordered t :=
  ⟨.same t.value, List.forall₂_same.2 fun a _ => .same a⟩

theorem Formatter.Reordered.same (formatter : Formatter) : formatter.Reordered formatter :=
  ⟨⟨fun _ => rel_same .same _, fun _ => rel_same .same _⟩, rfl⟩

theorem Session.Reordered.same (session : Session) : session.Reordered session :=
  List.forall₂_same.2 fun formatter _ => .same formatter

end Fluent
