/-
# The levels of what is read

Nesting counts braces and parentheses, and levels count the expressions that are resolved one inside
the other.  A selection takes a level for its selector without any brace, but it stands in braces of
its own, and its selector is no selection; so of every pattern that is read, the levels are at most
one more than the nesting.

* `InlineReadable.affords`, `CallReadable.affords`, `SelectionReadable.affords` : how many levels
  the parts take, if what lies deeper is affordable;
* `affords_nested` : everything that lies in braces or parentheses is;
* `ReadablePattern.levels_le` : and so is every pattern.
-/
import Fluent.Proofs.Grammar.Entries
import Fluent.Proofs.Grammar.PatternShape
import Fluent.Proofs.Tree.Levels
import Fluent.Tree.Nesting

namespace Fluent.Grammar

/-- What the rules for braces and parentheses read takes few levels.  The braces of a placeable are
not counted by its expression, and may hold a selection with its selector; the parentheses of a
call are counted by its arguments. -/
structure Affords (deep : Nested) : Prop where
  placeable : ∀ e, Reads (deep.placeable []) e → e.levels ≤ e.nesting + 2
  arguments : ∀ a, Reads deep.arguments a → a.levels ≤ a.nesting

section Parts

variable {deep : Nested}

/-- An inline expression takes one level more than it is nested: what it holds in braces is nested
once more, and a call counts its parentheses. -/
theorem InlineReadable.affords (hdeep : Affords deep) {e : Expression}
    (h : InlineReadable deep e) : e.levels ≤ e.nesting + 1 := by
  cases e with
  | select s => exact h.elim
  | placeable inner => exact hdeep.placeable inner h
  | function id arguments => exact Nat.succ_le_succ (hdeep.arguments arguments h.2)
  | _ => exact Nat.le_add_left ..

/-- The arguments of a call are inline expressions, nested once more. -/
theorem CallReadable.affords (hdeep : Affords deep) {a : CallArguments}
    (h : CallReadable deep a) : a.levels ≤ a.nesting := by
  obtain ⟨n, hn⟩ : ∃ n, a.nesting = n + 1 := by cases a; exact ⟨_, rfl⟩
  have hnesting := CallArguments.nesting_le_succ_iff.1 (Nat.le_of_eq hn)
  rw [hn, CallArguments.levels_le_iff]
  intro e he
  have hlevels := (h.positional e he).affords hdeep
  have hfits := hnesting e he
  omega

/-- In a pattern the braces of a placeable are counted, so it takes one level more than it is
nested. -/
theorem ReadablePattern.levels_le (hdeep : Affords deep) {fixed : Bool} {p : Pattern}
    (h : ReadablePattern (Reads (deep.placeable [])) fixed p) :
    Pattern.levels p ≤ Pattern.nesting p + 1 := by
  have hnesting := Pattern.nesting_le_iff.1 (Nat.le_refl (Pattern.nesting p))
  rw [Pattern.levels_le_iff]
  intro e he
  have hpiece : .placed e ∈ p.pieces := List.mem_flatMap.2 ⟨_, he, List.mem_singleton_self _⟩
  have hlevels := hdeep.placeable e (h.lines.placed_mem hpiece)
  have hfits : e.nesting + 1 ≤ Pattern.nesting p := hnesting _ he
  omega

/-- A selection takes as many levels as its selector or one of its variants. -/
theorem SelectionReadable.affords (hdeep : Affords deep) {s : Selection}
    (h : SelectionReadable deep s) : s.levels ≤ s.nesting + 1 := by
  obtain ⟨hselector, hvariants⟩ := Selection.nesting_le_iff.1 (Nat.le_refl s.nesting)
  rw [Selection.levels_le_iff]
  constructor
  · exact Nat.le_trans (h.selector.affords hdeep) (Nat.succ_le_succ hselector)
  · intro v hv
    obtain ⟨fixed, hvalue⟩ := (h.variants v hv).value
    have hfits := hvariants v hv
    rw [Variant.nesting_eq] at hfits
    exact Nat.le_trans (hvalue.levels_le hdeep) (Nat.succ_le_succ hfits)

/-- What stands in braces takes a second level more only if it is a selection. -/
theorem BodyReadable.affords (hdeep : Affords deep) {e : Expression} (h : BodyReadable deep e) :
    e.levels ≤ e.nesting + 2 := by
  rcases h.select_or_inline with ⟨s, rfl, hs⟩ | ⟨he, -, -⟩
  · exact Nat.succ_le_succ (hs.affords hdeep)
  · exact Nat.le_succ_of_le (he.affords hdeep)

end Parts

/-- **What is read in braces or parentheses is affordable**, whatever number of levels is free. -/
theorem affords_nested (limit left : Nat) : Affords (nested limit left) := by
  obtain ⟨hplaceable, harguments⟩ := reads_nested
    (P := fun e => e.levels ≤ e.nesting + 2) (Q := fun a => a.levels ≤ a.nesting)
    (fun hp ha e he => he.affords ⟨hp, ha⟩) (fun hp ha a h => h.affords ⟨hp, ha⟩) limit left
  exact ⟨hplaceable, harguments⟩

end Fluent.Grammar
