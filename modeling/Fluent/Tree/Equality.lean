/-
# Equality of trees

Trees are compared part by part.  `Expression.same` and its companions compare expressions, patterns
and the structures between them, and `Expression.same_iff` with its own says that they tell these
apart; from them follow instances for all parts of a resource.
-/
import Fluent.Tree.Basic

namespace Fluent

/-! ## Comparing part by part -/

mutual

/-- Two expressions have the same parts. -/
def Expression.same : Expression → Expression → Bool
  | .string a, .string b => a == b
  | .number a, .number b => a == b
  | .var a, .var b => a == b
  | .message a x, .message b y => a == b && x == y
  | .term a x none, .term b y none => a == b && x == y
  | .term a x (some s), .term b y (some t) => a == b && x == y && CallArguments.same s t
  | .function a s, .function b t => a == b && CallArguments.same s t
  | .select s, .select t => Selection.same s t
  | .placeable a, .placeable b => Expression.same a b
  | _, _ => false

/-- Two argument lists have the same parts. -/
def CallArguments.same : CallArguments → CallArguments → Bool
  | ⟨xs, ns⟩, ⟨ys, ms⟩ => sameExpressions xs ys && ns == ms

/-- Two selections have the same parts. -/
def Selection.same : Selection → Selection → Bool
  | ⟨a, vs, i⟩, ⟨b, ws, j⟩ => Expression.same a b && sameVariants vs ws && i == j

/-- Two variants have the same parts. -/
def Variant.same : Variant → Variant → Bool
  | ⟨k, xs, d⟩, ⟨l, ys, e⟩ => k == l && samePattern xs ys && d == e

/-- Two elements of a pattern have the same parts. -/
def PatternElement.same : PatternElement → PatternElement → Bool
  | .text a, .text b => a == b
  | .placeable a, .placeable b => Expression.same a b
  | _, _ => false

/-- Two lists of expressions agree one by one. -/
def sameExpressions : List Expression → List Expression → Bool
  | [], [] => true
  | x :: xs, y :: ys => Expression.same x y && sameExpressions xs ys
  | _, _ => false

/-- Two lists of variants agree one by one. -/
def sameVariants : List Variant → List Variant → Bool
  | [], [] => true
  | x :: xs, y :: ys => Variant.same x y && sameVariants xs ys
  | _, _ => false

/-- Two patterns agree element by element. -/
def samePattern : List PatternElement → List PatternElement → Bool
  | [], [] => true
  | x :: xs, y :: ys => PatternElement.same x y && samePattern xs ys
  | _, _ => false

end

/-! ## What the comparison decides -/

mutual

/-- The Boolean test on expressions decides equality. -/
theorem Expression.same_iff : ∀ a b : Expression, a.same b = true ↔ a = b
  | .string _, b => by cases b <;> simp [Expression.same]
  | .number _, b => by cases b <;> simp [Expression.same]
  | .var _, b => by cases b <;> simp [Expression.same]
  | .message _ _, b => by cases b <;> simp [Expression.same]
  | .term _ _ none, b => by
    cases b with
    | term _ _ t => cases t <;> simp [Expression.same]
    | _ => simp [Expression.same]
  | .term _ _ (some s), b => by
    cases b with
    | term _ _ t => cases t <;> simp [Expression.same, CallArguments.same_iff s, and_assoc]
    | _ => simp [Expression.same]
  | .function _ s, b => by cases b <;> simp [Expression.same, CallArguments.same_iff s]
  | .select s, b => by cases b <;> simp [Expression.same, Selection.same_iff s]
  | .placeable a, b => by cases b <;> simp [Expression.same, Expression.same_iff a]

theorem CallArguments.same_iff : ∀ s t : CallArguments, s.same t = true ↔ s = t
  | ⟨xs, _⟩, ⟨ys, _⟩ => by simp [CallArguments.same, sameExpressions_iff xs ys]

theorem Selection.same_iff : ∀ s t : Selection, s.same t = true ↔ s = t
  | ⟨a, vs, _⟩, ⟨b, ws, _⟩ => by
    simp [Selection.same, Expression.same_iff a b, sameVariants_iff vs ws, and_assoc]

theorem Variant.same_iff : ∀ v w : Variant, v.same w = true ↔ v = w
  | ⟨_, xs, _⟩, ⟨_, ys, _⟩ => by simp [Variant.same, samePattern_iff xs ys, and_assoc]

theorem PatternElement.same_iff : ∀ x y : PatternElement, x.same y = true ↔ x = y
  | .text _, y => by cases y <;> simp [PatternElement.same]
  | .placeable a, y => by cases y <;> simp [PatternElement.same, Expression.same_iff a]

theorem sameExpressions_iff : ∀ xs ys : List Expression, sameExpressions xs ys = true ↔ xs = ys
  | [], ys => by cases ys <;> simp [sameExpressions]
  | x :: xs, ys => by
    cases ys <;> simp [sameExpressions, Expression.same_iff x, sameExpressions_iff xs]

theorem sameVariants_iff : ∀ xs ys : List Variant, sameVariants xs ys = true ↔ xs = ys
  | [], ys => by cases ys <;> simp [sameVariants]
  | x :: xs, ys => by cases ys <;> simp [sameVariants, Variant.same_iff x, sameVariants_iff xs]

theorem samePattern_iff : ∀ xs ys : List PatternElement, samePattern xs ys = true ↔ xs = ys
  | [], ys => by cases ys <;> simp [samePattern]
  | x :: xs, ys => by
    cases ys <;> simp [samePattern, PatternElement.same_iff x, samePattern_iff xs]

end

instance : DecidableEq Expression := fun a b => decidable_of_iff _ (Expression.same_iff a b)

instance : DecidableEq CallArguments := fun a b => decidable_of_iff _ (CallArguments.same_iff a b)

instance : DecidableEq Selection := fun a b => decidable_of_iff _ (Selection.same_iff a b)

instance : DecidableEq Variant := fun a b => decidable_of_iff _ (Variant.same_iff a b)

instance : DecidableEq PatternElement := fun a b => decidable_of_iff _ (PatternElement.same_iff a b)

deriving instance DecidableEq for Attribute

deriving instance DecidableEq for Message

deriving instance DecidableEq for Term

deriving instance DecidableEq for Entry

deriving instance DecidableEq for Resource

end Fluent
