/-
# Subtrees

All that resolving a tree may come to without following a reference to another pattern: the tree
itself, and in turn what stands in it, that is texts, and expressions that are placed, given as
arguments, used as selectors or placed in variants.

* `Expression.subtrees`, `Pattern.subtrees` : the texts and the expressions at every depth;
* `Starts.subtrees` : what follows in a run is a subtree of the present task or of a pattern of the
  catalog.
-/
import Fluent.Proofs.Format.Moments
import Fluent.Proofs.Format.References

namespace Fluent

mutual

/-- An expression and what stands in it. -/
def Expression.subtrees : Expression → List PatternElement
  | .string literal => [.placeable (.string literal)]
  | .number literal => [.placeable (.number literal)]
  | .var id => [.placeable (.var id)]
  | .message id attr => [.placeable (.message id attr)]
  | .term id attr arguments => [.placeable (.term id attr arguments)]
  | .function id arguments => .placeable (.function id arguments) :: arguments.subtrees
  | .select selection => .placeable (.select selection) :: selection.subtrees
  | .placeable inner => .placeable (.placeable inner) :: inner.subtrees

/-- What stands in call arguments. -/
def CallArguments.subtrees : CallArguments → List PatternElement
  | ⟨positional, _⟩ => argumentsSubtrees positional

/-- What stands in a selection. -/
def Selection.subtrees : Selection → List PatternElement
  | ⟨selector, variants, _⟩ => selector.subtrees ++ variantsSubtrees variants

/-- What stands in a variant. -/
def Variant.subtrees : Variant → List PatternElement
  | ⟨_, value, _⟩ => elementsSubtrees value

/-- An element and what stands in it. -/
def PatternElement.subtrees : PatternElement → List PatternElement
  | .text value => [.text value]
  | .placeable e => e.subtrees

/-- What stands in arguments given by position. -/
def argumentsSubtrees : List Expression → List PatternElement
  | [] => []
  | e :: es => e.subtrees ++ argumentsSubtrees es

/-- What stands in variants. -/
def variantsSubtrees : List Variant → List PatternElement
  | [] => []
  | v :: vs => v.subtrees ++ variantsSubtrees vs

/-- What stands in elements. -/
def elementsSubtrees : List PatternElement → List PatternElement
  | [] => []
  | x :: xs => x.subtrees ++ elementsSubtrees xs

end

/-- What stands in a pattern. -/
def Pattern.subtrees (p : Pattern) : List PatternElement :=
  elementsSubtrees p

/-- What stands in the patterns of a catalog. -/
def Catalog.subtrees (catalog : Catalog) : List PatternElement :=
  catalog.patterns.flatMap fun entry => Pattern.subtrees entry.2

/-! ## What a tree holds -/

/-- An expression is among its own subtrees. -/
theorem Expression.self_mem_subtrees (e : Expression) : .placeable e ∈ e.subtrees := by
  cases e <;> exact List.mem_cons_self

/-- Taking the braces off brings in no subtrees. -/
theorem Expression.peeled_subtrees_subset : ∀ e : Expression, e.peeled.subtrees ⊆ e.subtrees
  | .placeable inner => fun _ hx => List.mem_cons_of_mem _ (inner.peeled_subtrees_subset hx)
  | .string _ | .number _ | .var _ | .message .. | .term .. | .function .. | .select _ =>
    List.Subset.refl _

/-- The expression without the placeables around it is a subtree. -/
theorem Expression.peeled_mem_subtrees (e : Expression) : .placeable e.peeled ∈ e.subtrees :=
  e.peeled_subtrees_subset e.peeled.self_mem_subtrees

/-- The subtrees of call arguments are those of the positional ones. -/
theorem CallArguments.subtrees_eq (call : CallArguments) :
    call.subtrees = argumentsSubtrees call.positional := by
  cases call
  rfl

/-- The subtrees of a selection are those of its selector and of its variants. -/
theorem Selection.subtrees_eq (s : Selection) :
    s.subtrees = s.selector.subtrees ++ variantsSubtrees s.variants := by
  cases s
  rfl

/-- The subtrees of a variant are those of its value. -/
theorem Variant.subtrees_eq (v : Variant) : v.subtrees = Pattern.subtrees v.value := by
  cases v
  rfl

/-- The subtrees of one variant are among those of all. -/
theorem subtrees_subset_of_mem {v : Variant} {vs : List Variant} (h : v ∈ vs) :
    Pattern.subtrees v.value ⊆ variantsSubtrees vs := by
  induction h with
  | head rest => exact fun x hx => List.mem_append_left _ (v.subtrees_eq ▸ hx)
  | tail first _ ih => exact fun x hx => List.mem_append_right _ (ih hx)

/-- The subtrees of one pattern are among those of its catalog. -/
theorem Catalog.subtrees_subset {catalog : Catalog} {origin : Origin} {p : Pattern}
    (h : catalog.patternOf? origin = some p) : Pattern.subtrees p ⊆ catalog.subtrees :=
  fun _ hx => List.mem_flatMap.2 ⟨(origin, p), Catalog.mem_patterns h, hx⟩

/-! ## What a run comes to -/

/-- What a task is about and what stands in it. -/
def Task.subtrees : Task → List PatternElement
  | .expression _ e => e.subtrees
  | .pattern _ _ p => Pattern.subtrees p
  | .elements _ _ _ list => elementsSubtrees list
  | .arguments _ _ list => argumentsSubtrees list

/-- **What is true of all that stands in a catalog and in a task stays true of the tasks that
follow.** -/
theorem Starts.subtrees {session : Session} {formatter : Formatter} {m next : Moment}
    (h : Starts session formatter m next) {P : PatternElement → Prop}
    (hcatalog : ∀ x ∈ formatter.catalog.subtrees, P x) (hm : ∀ x ∈ m.task.subtrees, P x) :
    ∀ x ∈ next.task.subtrees, P x := by
  -- an expression leads only to what stands in it, or to what it refers to
  have hpeeled : ∀ {e inner : Expression}, e.peeled = inner → (∀ x ∈ e.subtrees, P x) →
      ∀ x ∈ inner.subtrees, P x := by
    rintro e _ rfl he x hx
    exact he x (e.peeled_subtrees_subset hx)
  cases h with
  | @message _ _ _ _ _ id attr p _ _ hp =>
    have hsubset := Catalog.subtrees_subset
      (show formatter.catalog.patternOf? (.message id.name (attr.map (·.name))) = some p from hp)
    exact fun x hx => hcatalog x (hsubset hx)
  | @term _ _ _ _ _ id attr _ p _ _ hp =>
    have hsubset := Catalog.subtrees_subset
      (show formatter.catalog.patternOf? (.term id.name (attr.map (·.name))) = some p from hp)
    exact fun x hx => hcatalog x (hsubset hx)
  | @call _ _ _ _ _ _ call _ _ he =>
    intro x hx
    refine hpeeled he hm x (List.mem_cons_of_mem _ ?_)
    rw [call.subtrees_eq]
    exact hx
  | @selector _ _ _ _ _ s _ he =>
    intro x hx
    refine hpeeled he hm x (List.mem_cons_of_mem _ ?_)
    rw [s.subtrees_eq]
    exact List.mem_append_left _ hx
  | @variant _ _ _ _ _ _ _ s _ _ v _ he _ _ hv =>
    intro x hx
    refine hpeeled he hm x (List.mem_cons_of_mem _ ?_)
    rw [s.subtrees_eq]
    exact List.mem_append_right _ (subtrees_subset_of_mem (List.mem_of_getElem? hv) hx)
  | elements => exact hm
  | text | following => exact fun x hx => hm x (List.mem_append_right _ hx)
  | nextArgument => exact fun x hx => hm x (List.mem_append_right _ hx)
  | placeable | argument => exact fun x hx => hm x (List.mem_append_left _ hx)

end Fluent
