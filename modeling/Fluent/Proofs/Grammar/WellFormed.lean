/-
# What is read is well-formed

Every rule of the grammar reads trees that keep the rules of well-formed trees, down to what lies in
braces and parentheses.

* `TreeRules.wellFormed` : the rules, for a tree read from a text of a given size;
* `InlineReadable.keeps`, `SelectionReadable.keeps`, `CallReadable.keeps` : the parts keep them if
  what lies deeper does;
* `yields_nested` : so what is read on any level keeps them;
* `EntryReadable.keeps` : and so do entries.
-/
import Fluent.Proofs.Grammar.Entries
import Fluent.Proofs.Grammar.PatternShape
import Fluent.Proofs.Tree.Rules

namespace Fluent

open Grammar

/-- The rules of what was read from a text of `size` bytes.  No placeable holds the attribute of a
term, and a message has something besides its name. -/
def TreeRules.wellFormed (size : Nat) : TreeRules where
  name id := IsName id.name.toList
  pattern := Pattern.WellFormed
  placed e := ∀ id attr arguments, e ≠ .term id (some attr) arguments
  message m := m.value.isSome = true ∨ m.attributes ≠ []
  span s := s.start ≤ s.stop ∧ s.stop ≤ size

namespace Grammar

/-- What the rules for braces and parentheses read keeps the rules for trees. -/
structure Yields (rules : TreeRules) (deep : Nested) : Prop where
  placeable : ∀ e, Reads (deep.placeable []) e → rules.placed e ∧ e.Keeps rules
  arguments : ∀ a, Reads deep.arguments a → a.Keeps rules

section Parts

variable {size : Nat} {deep : Nested}

/-! ## Expressions -/

/-- A literal that can be read passes the checks on literals. -/
theorem IsLiteral.checked {l : Literal} (h : IsLiteral l) : l.Checked := by
  cases l with
  | string s => exact IsString.ofRaw h
  | number n => exact IsNumber.ofRaw h

/-- A variant key that can be read is well formed. -/
theorem IsKey.keeps {key : VariantKey} (h : IsKey key) : key.Keeps (.wellFormed size) := by
  cases key with
  | identifier id => exact h
  | number n => exact IsNumber.ofRaw h

/-- What can be read as an inline expression keeps the rules. -/
theorem InlineReadable.keeps (hdeep : Yields (.wellFormed size) deep) {e : Expression}
    (h : InlineReadable deep e) : e.Keeps (.wellFormed size) := by
  cases e with
  | string s => exact IsString.ofRaw h
  | number n => exact IsNumber.ofRaw h
  | var id => exact h
  | message id attr => exact h
  | term id attr arguments =>
    obtain ⟨hname, hattr, harguments⟩ := h
    cases arguments with
    | none => exact ⟨hname, hattr⟩
    | some a => exact ⟨⟨hname, hattr⟩, hdeep.arguments a (harguments a rfl)⟩
  | function id arguments => exact ⟨h.1, hdeep.arguments arguments h.2⟩
  | select s => exact h.elim
  | placeable inner => exact hdeep.placeable inner h

/-- What can be read as the arguments of a call keeps the rules. -/
theorem CallReadable.keeps (hdeep : Yields (.wellFormed size) deep) {a : CallArguments}
    (h : CallReadable deep a) : a.Keeps (.wellFormed size) := by
  refine CallArguments.keeps_iff.2 ⟨h.checked, fun e he => (h.positional e he).keeps hdeep,
    fun given hgiven => ?_⟩
  obtain ⟨hname, hvalue⟩ := h.named given hgiven
  exact ⟨hname, hvalue.checked⟩

/-! ## Patterns and selections -/

/-- What can be read as a pattern keeps the rules. -/
theorem ReadablePattern.keeps (hdeep : Yields (.wellFormed size) deep) {fixed : Bool} {p : Pattern}
    (h : ReadablePattern (Reads (deep.placeable [])) fixed p) :
    Pattern.Keeps (.wellFormed size) p := by
  refine ⟨h.wellFormed, fun x hx => ?_⟩
  cases x with
  | text s => trivial
  | placeable e =>
    have hpiece : .placed e ∈ p.pieces := List.mem_flatMap.2 ⟨_, hx, List.mem_singleton_self _⟩
    exact hdeep.placeable e (h.lines.placed_mem hpiece)

/-- A variant that can be read is well formed, if what its braces hold is. -/
theorem VariantReadable.keeps (hdeep : Yields (.wellFormed size) deep) {v : Variant}
    (h : VariantReadable deep v) : v.Keeps (.wellFormed size) := by
  obtain ⟨fixed, hvalue⟩ := h.value
  exact Variant.keeps_iff.2 ⟨h.key.keeps, hvalue.keeps hdeep⟩

/-- What can be read as a selection keeps the rules. -/
theorem SelectionReadable.keeps (hdeep : Yields (.wellFormed size) deep) {s : Selection}
    (h : SelectionReadable deep s) : s.Keeps (.wellFormed size) :=
  Selection.keeps_iff.2 ⟨(Selection.build_eq_ok_iff.1 h.build).1, h.selector.keeps hdeep,
    fun v hv => (h.variants v hv).keeps hdeep⟩

/-- What can be read between braces keeps the rules, and may stand there. -/
theorem BodyReadable.keeps (hdeep : Yields (.wellFormed size) deep) {e : Expression}
    (h : BodyReadable deep e) :
    (TreeRules.wellFormed size).placed e ∧ e.Keeps (.wellFormed size) := by
  rcases h.select_or_inline with ⟨s, rfl, hs⟩ | ⟨he, -, hterm⟩
  · exact ⟨nofun, hs.keeps hdeep⟩
  · exact ⟨hterm, he.keeps hdeep⟩

end Parts

/-! ## All levels -/

/-- **What is read in braces or parentheses keeps the rules**, whatever number of levels is free. -/
theorem yields_nested (size limit left : Nat) :
    Yields (.wellFormed size) (nested limit left) := by
  obtain ⟨hplaceable, harguments⟩ := reads_nested
    (P := fun e => (TreeRules.wellFormed size).placed e ∧ e.Keeps (.wellFormed size))
    (Q := fun a => a.Keeps (.wellFormed size)) (fun hp ha e he => he.keeps ⟨hp, ha⟩)
    (fun hp ha a h => h.keeps ⟨hp, ha⟩) limit left
  exact ⟨hplaceable, harguments⟩

/-! ## Entries -/

section Entries

variable {size : Nat} {deep : Nested}

/-- An attribute that can be read is well formed, if what its braces hold is. -/
theorem AttributeReadable.keeps (hdeep : Yields (.wellFormed size) deep) {a : Attribute}
    (h : AttributeReadable deep a) : a.Keeps (.wellFormed size) := by
  obtain ⟨fixed, hvalue⟩ := h.value
  exact ⟨h.name, hvalue.keeps hdeep⟩

/-- What can be read as an entry keeps the rules. -/
theorem EntryReadable.keeps (hdeep : Yields (.wellFormed size) deep) {e : Entry}
    (h : EntryReadable deep e) : e.Keeps (.wellFormed size) := by
  cases e with
  | message m =>
    refine ⟨h.name, fun p hp => ?_, fun a ha => (h.attributes a ha).keeps hdeep, ?_⟩
    · obtain ⟨fixed, hvalue⟩ := h.value p hp
      exact hvalue.keeps hdeep
    · have hfield := h.field
      cases hv : m.value with
      | some p => exact .inl (by rw [hv]; rfl)
      | none =>
        rw [hv] at hfield
        exact .inr (by simpa using hfield)
  | term t =>
    obtain ⟨fixed, hvalue⟩ := h.value
    exact ⟨h.name, hvalue.keeps hdeep, fun a ha => (h.attributes a ha).keeps hdeep⟩
  | comment _ => trivial
  | junk _ => exact h.elim

end Entries

end Grammar

end Fluent
