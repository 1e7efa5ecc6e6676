/-
# Levels and nodes

How many levels the expressions of a tree take when they are resolved one inside the other, not
counting those of the patterns that they refer to, and how many expressions there are at all.  A
placeable around another one takes no level; it is an expression nevertheless.

* `Expression.levels`, `Expression.nodes` : both numbers, for each part of a tree;
* `Expression.levels_le_nodes` : levels are taken by different expressions.
-/
import Fluent.Tree.Basic

namespace Fluent

mutual

/-- The levels that an expression takes. -/
def Expression.levels : Expression → Nat
  | .string _ | .number _ | .var _ | .message .. | .term .. => 1
  | .function _ arguments => arguments.levels + 1
  | .select selection => selection.levels + 1
  | .placeable inner => inner.levels

/-- The levels that call arguments take. -/
def CallArguments.levels : CallArguments → Nat
  | ⟨positional, _⟩ => argumentsLevels positional

/-- The levels that a selection takes: its selector, and then one of its variants. -/
def Selection.levels : Selection → Nat
  | ⟨selector, variants, _⟩ => max selector.levels (variantsLevels variants)

/-- The levels that a variant takes. -/
def Variant.levels : Variant → Nat
  | ⟨_, value, _⟩ => elementsLevels value

/-- The levels that an element takes. -/
def PatternElement.levels : PatternElement → Nat
  | .text _ => 0
  | .placeable expression => expression.levels

/-- The most levels that one of the arguments given by position takes. -/
def argumentsLevels : List Expression → Nat
  | [] => 0
  | e :: es => max e.levels (argumentsLevels es)

/-- The most levels that one of the variants takes. -/
def variantsLevels : List Variant → Nat
  | [] => 0
  | v :: vs => max v.levels (variantsLevels vs)

/-- The most levels that one of the elements takes. -/
def elementsLevels : List PatternElement → Nat
  | [] => 0
  | x :: xs => max x.levels (elementsLevels xs)

end

mutual

/-- The number of expressions in an expression, itself included. -/
def Expression.nodes : Expression → Nat
  | .string _ | .number _ | .var _ | .message .. | .term _ _ none => 1
  | .term _ _ (some arguments) => arguments.nodes + 1
  | .function _ arguments => arguments.nodes + 1
  | .select selection => selection.nodes + 1
  | .placeable inner => inner.nodes + 1

/-- The number of expressions in call arguments. -/
def CallArguments.nodes : CallArguments → Nat
  | ⟨positional, _⟩ => argumentsNodes positional

/-- The number of expressions in a selection. -/
def Selection.nodes : Selection → Nat
  | ⟨selector, variants, _⟩ => selector.nodes + variantsNodes variants

/-- The number of expressions in a variant. -/
def Variant.nodes : Variant → Nat
  | ⟨_, value, _⟩ => elementsNodes value

/-- The number of expressions in an element. -/
def PatternElement.nodes : PatternElement → Nat
  | .text _ => 0
  | .placeable expression => expression.nodes

/-- The number of expressions in arguments given by position. -/
def argumentsNodes : List Expression → Nat
  | [] => 0
  | e :: es => e.nodes + argumentsNodes es

/-- The number of expressions in variants. -/
def variantsNodes : List Variant → Nat
  | [] => 0
  | v :: vs => v.nodes + variantsNodes vs

/-- The number of expressions in elements. -/
def elementsNodes : List PatternElement → Nat
  | [] => 0
  | x :: xs => x.nodes + elementsNodes xs

end

/-- The levels that a pattern takes. -/
def Pattern.levels (p : Pattern) : Nat :=
  elementsLevels p

/-- The number of expressions in a pattern. -/
def Pattern.nodes (p : Pattern) : Nat :=
  elementsNodes p

/-! ## Bounds -/

section Bounds

variable {n : Nat}

theorem argumentsLevels_le_iff {es : List Expression} :
    argumentsLevels es ≤ n ↔ ∀ e ∈ es, e.levels ≤ n := by
  induction es with
  | nil => simp [argumentsLevels]
  | cons e es ih => rw [argumentsLevels, Nat.max_le, ih, List.forall_mem_cons]

theorem variantsLevels_le_iff {vs : List Variant} :
    variantsLevels vs ≤ n ↔ ∀ v ∈ vs, v.levels ≤ n := by
  induction vs with
  | nil => simp [variantsLevels]
  | cons v vs ih => rw [variantsLevels, Nat.max_le, ih, List.forall_mem_cons]

theorem Pattern.levels_le_iff {p : Pattern} :
    p.levels ≤ n ↔ ∀ e, .placeable e ∈ p → e.levels ≤ n := by
  unfold Pattern.levels
  induction p with
  | nil => simp [elementsLevels]
  | cons x xs ih =>
    rw [elementsLevels, Nat.max_le, ih]
    cases x with
    | text value => simp [PatternElement.levels]
    | placeable e => simp [PatternElement.levels, or_imp, forall_and]

/-- A variant takes the levels of its value. -/
theorem Variant.levels_eq (v : Variant) : v.levels = Pattern.levels v.value := by
  cases v
  rfl

theorem CallArguments.levels_le_iff {a : CallArguments} :
    a.levels ≤ n ↔ ∀ e ∈ a.positional, e.levels ≤ n := by
  cases a
  exact argumentsLevels_le_iff

theorem Selection.levels_le_iff {s : Selection} :
    s.levels ≤ n ↔ s.selector.levels ≤ n ∧ ∀ v ∈ s.variants, Pattern.levels v.value ≤ n := by
  cases s
  simp only [Selection.levels, Nat.max_le, variantsLevels_le_iff, Variant.levels_eq]

end Bounds

/-- Every expression takes a level. -/
theorem Expression.one_le_levels : ∀ e : Expression, 1 ≤ e.levels
  | .string _ | .number _ | .var _ | .message .. | .term .. => Nat.le_refl 1
  | .function .. | .select _ => Nat.le_add_left ..
  | .placeable inner => inner.one_le_levels

/-! ## Levels and nodes -/

mutual

/-- **No level is taken by two expressions at once.** -/
theorem Expression.levels_le_nodes : ∀ e : Expression, e.levels ≤ e.nodes
  | .string _ | .number _ | .var _ | .message .. | .term _ _ none => Nat.le_refl 1
  | .term _ _ (some _) => Nat.le_add_left ..
  | .function _ arguments => Nat.succ_le_succ arguments.levels_le_nodes
  | .select selection => Nat.succ_le_succ selection.levels_le_nodes
  | .placeable inner => Nat.le_succ_of_le inner.levels_le_nodes

theorem CallArguments.levels_le_nodes : ∀ a : CallArguments, a.levels ≤ a.nodes
  | ⟨positional, _⟩ => argumentsLevels_le_nodes positional

theorem Selection.levels_le_nodes : ∀ s : Selection, s.levels ≤ s.nodes
  | ⟨selector, variants, _⟩ => by
    have hselector := selector.levels_le_nodes
    have hvariants := variantsLevels_le_nodes variants
    rw [Selection.levels, Selection.nodes]
    omega

theorem Variant.levels_le_nodes : ∀ v : Variant, v.levels ≤ v.nodes
  | ⟨_, value, _⟩ => elementsLevels_le_nodes value

theorem PatternElement.levels_le_nodes : ∀ x : PatternElement, x.levels ≤ x.nodes
  | .text _ => Nat.le_refl 0
  | .placeable e => e.levels_le_nodes

theorem argumentsLevels_le_nodes : ∀ es : List Expression, argumentsLevels es ≤ argumentsNodes es
  | [] => Nat.le_refl 0
  | e :: es => by
    have hfirst := e.levels_le_nodes
    have hrest := argumentsLevels_le_nodes es
    rw [argumentsLevels, argumentsNodes]
    omega

theorem variantsLevels_le_nodes : ∀ vs : List Variant, variantsLevels vs ≤ variantsNodes vs
  | [] => Nat.le_refl 0
  | v :: vs => by
    have hfirst := v.levels_le_nodes
    have hrest := variantsLevels_le_nodes vs
    rw [variantsLevels, variantsNodes]
    omega

theorem elementsLevels_le_nodes : ∀ xs : List PatternElement, elementsLevels xs ≤ elementsNodes xs
  | [] => Nat.le_refl 0
  | x :: xs => by
    have hfirst := x.levels_le_nodes
    have hrest := elementsLevels_le_nodes xs
    rw [elementsLevels, elementsNodes]
    omega

end

theorem Pattern.levels_le_nodes (p : Pattern) : p.levels ≤ p.nodes :=
  elementsLevels_le_nodes p

end Fluent
