/-
# Nesting

Braces and parentheses nest, and the depth of nesting is limited.  The rules of the grammar are
therefore written over the rules for what lies one level deeper: `Nested` holds the two rules
through which the grammar meets itself again, and every level is built from the one below it.

Each such rule reads something whenever it succeeds; the loops of the grammar rely on this to end.
-/
import Fluent.Tree.Basic
import Fluent.Grammar.Failure

namespace Fluent.Grammar

/-- A rule that reads at least one character when it succeeds. -/
structure Rule (α : Type) where
  run : Cursor → Reading (α × Cursor)
  advances : ∀ {c stop : Cursor} {a : α}, run c = .ok (a, stop) → c < stop

/-- The rules for what a brace or a parenthesis opens.  The rule for placeables takes the places of
the braces that have been opened directly in front of it. -/
structure Nested where
  placeable : List Nat → Rule Expression
  arguments : Rule CallArguments

/-- How many levels may be nested, and how many of them are still free. -/
structure Allowance where
  limit : Nat
  left : Nat
deriving DecidableEq

namespace Allowance

/-- All levels are free. -/
def full (limit : Nat) : Allowance :=
  ⟨limit, limit⟩

/-- Takes one level, if one is free. -/
def enter (allowance : Allowance) (c : Cursor) : Reading Allowance :=
  match allowance.left with
  | 0 => c.fail (.nestedTooDeep allowance.limit)
  | left + 1 => .ok ⟨allowance.limit, left⟩

/-- Takes several levels one after the other. -/
def enterTimes (c : Cursor) : Nat → Allowance → Reading Allowance
  | 0, allowance => .ok allowance
  | n + 1, allowance => do enterTimes c n (← allowance.enter c)

end Allowance

/-- No level is free: every brace and every parenthesis is refused. -/
def Nested.none (limit : Nat) : Nested where
  placeable _ := ⟨fun c => c.fail (.nestedTooDeep limit), fun h => absurd h fail_ne_ok⟩
  arguments := ⟨fun c => c.fail (.nestedTooDeep limit), fun h => absurd h fail_ne_ok⟩

end Fluent.Grammar
