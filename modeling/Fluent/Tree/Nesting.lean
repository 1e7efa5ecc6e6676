/-
# How deep trees are nested

Placeables and call arguments nest: the depth of a tree is the greatest number of them around any of
its points.  Arguments count even if there are none between the parentheses, and a placeable that
holds nothing but another one counts like any other.

* `Pattern.nesting_le_iff` and its companions : what a bound on the depth says of the parts.
-/
import Fluent.Tree.Basic

namespace Fluent

mutual

/-- The depth of an expression, without the placeable that it stands in. -/
def Expression.nesting : Expression → Nat
  | .string _ | .number _ | .var _ | .message .. | .term _ _ none => 0
  | .term _ _ (some arguments) => arguments.nesting
  | .function _ arguments => arguments.nesting
  | .select selection => selection.nesting
  | .placeable inner => inner.nesting + 1

/-- The depth of call arguments; their parentheses are a level. -/
def CallArguments.nesting : CallArguments → Nat
  | ⟨positional, _⟩ => argumentsNesting positional + 1

/-- The depth of a selection. -/
def Selection.nesting : Selection → Nat
  | ⟨selector, variants, _⟩ => max selector.nesting (variantsNesting variants)

/-- The depth of a variant. -/
def Variant.nesting : Variant → Nat
  | ⟨_, value, _⟩ => elementsNesting value

/-- The depth of an element; the braces of a placeable are a level. -/
def PatternElement.nesting : PatternElement → Nat
  | .text _ => 0
  | .placeable expression => expression.nesting + 1

/-- The greatest depth of arguments given by position. -/
def argumentsNesting : List Expression → Nat
  | [] => 0
  | e :: es => max e.nesting (argumentsNesting es)

/-- The greatest depth of variants. -/
def variantsNesting : List Variant → Nat
  | [] => 0
  | v :: vs => max v.nesting (variantsNesting vs)

/-- The greatest depth of elements. -/
def elementsNesting : List PatternElement → Nat
  | [] => 0
  | x :: xs => max x.nesting (elementsNesting xs)

end

/-- The depth of a pattern. -/
def Pattern.nesting (p : Pattern) : Nat :=
  elementsNesting p

/-- The greatest depth of attributes. -/
def attributesNesting : List Attribute → Nat
  | [] => 0
  | a :: rest => max (Pattern.nesting a.value) (attributesNesting rest)

/-- The depth of a message: of its value and its attributes. -/
def Message.nesting (m : Message) : Nat :=
  max ((m.value.map Pattern.nesting).getD 0) (attributesNesting m.attributes)

/-- The depth of a term: of its value and its attributes. -/
def Term.nesting (t : Term) : Nat :=
  max (Pattern.nesting t.value) (attributesNesting t.attributes)

/-- The depth of an entry; comments and junk have none. -/
def Entry.nesting : Entry → Nat
  | .message m => m.nesting
  | .term t => t.nesting
  | .comment _ | .junk _ => 0

/-! ## Bounds -/

section Bounds

variable {n : Nat}

/-- Arguments nest no deeper than a bound exactly when each of them does. -/
theorem argumentsNesting_le_iff {es : List Expression} :
    argumentsNesting es ≤ n ↔ ∀ e ∈ es, e.nesting ≤ n := by
  induction es with
  | nil => simp [argumentsNesting]
  | cons e es ih => rw [argumentsNesting, Nat.max_le, ih, List.forall_mem_cons]

/-- Variants nest no deeper than a bound exactly when each of them does. -/
theorem variantsNesting_le_iff {vs : List Variant} :
    variantsNesting vs ≤ n ↔ ∀ v ∈ vs, v.nesting ≤ n := by
  induction vs with
  | nil => simp [variantsNesting]
  | cons v vs ih => rw [variantsNesting, Nat.max_le, ih, List.forall_mem_cons]

/-- A pattern nests no deeper than a bound exactly when each of its elements does. -/
theorem Pattern.nesting_le_iff {p : Pattern} : p.nesting ≤ n ↔ ∀ x ∈ p, x.nesting ≤ n := by
  unfold Pattern.nesting
  induction p with
  | nil => simp [elementsNesting]
  | cons x xs ih => rw [elementsNesting, Nat.max_le, ih, List.forall_mem_cons]

/-- Attributes nest no deeper than a bound exactly when each of their values does. -/
theorem attributesNesting_le_iff {list : List Attribute} :
    attributesNesting list ≤ n ↔ ∀ a ∈ list, Pattern.nesting a.value ≤ n := by
  induction list with
  | nil => simp [attributesNesting]
  | cons a rest ih => rw [attributesNesting, Nat.max_le, ih, List.forall_mem_cons]

/-- A variant nests as deep as its value. -/
theorem Variant.nesting_eq (v : Variant) : v.nesting = Pattern.nesting v.value := by
  cases v
  rfl

/-- The parentheses of a call are one of its levels. -/
theorem CallArguments.nesting_le_succ_iff {a : CallArguments} :
    a.nesting ≤ n + 1 ↔ ∀ e ∈ a.positional, e.nesting ≤ n := by
  cases a
  rw [CallArguments.nesting, Nat.add_le_add_iff_right, argumentsNesting_le_iff]

/-- A selection nests no deeper than a bound exactly when its selector and its variants do. -/
theorem Selection.nesting_le_iff {s : Selection} :
    s.nesting ≤ n ↔ s.selector.nesting ≤ n ∧ ∀ v ∈ s.variants, v.nesting ≤ n := by
  cases s
  rw [Selection.nesting, Nat.max_le, variantsNesting_le_iff]

/-- A message nests no deeper than a bound exactly when its value, if it has one, and its
attributes do. -/
theorem Message.nesting_le_iff {m : Message} :
    m.nesting ≤ n ↔
      (∀ p, m.value = some p → Pattern.nesting p ≤ n) ∧
        ∀ a ∈ m.attributes, Pattern.nesting a.value ≤ n := by
  rw [Message.nesting, Nat.max_le, attributesNesting_le_iff]
  cases m.value <;> simp

/-- A term nests no deeper than a bound exactly when its value and its attributes do. -/
theorem Term.nesting_le_iff {t : Term} :
    t.nesting ≤ n ↔
      Pattern.nesting t.value ≤ n ∧ ∀ a ∈ t.attributes, Pattern.nesting a.value ≤ n := by
  rw [Term.nesting, Nat.max_le, attributesNesting_le_iff]

end Bounds

end Fluent
