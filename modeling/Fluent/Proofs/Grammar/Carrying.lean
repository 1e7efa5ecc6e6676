/-
# Tokens of spaced texts

Blank lines are added behind line ends only, so a text with blank lines added holds the same tokens
as the text itself.

* `Spaced.identifier`, `Spaced.number`, `Spaced.stringLiteral` : rules for tokens carry over;
* `Near.expectChar`, `Near.atArrow_eq` : so does what stands behind blanks of all kinds.
-/
import Fluent.Proofs.Grammar.Heads

namespace Fluent.Grammar

/-- The values are related, and spaced texts stand behind them. -/
def Beside {α : Type} (R : α → α → Prop) (p q : α × Cursor) : Prop :=
  R p.1 q.1 ∧ Spaced p.2.rest q.2.rest

namespace Spaced

variable {c d : Cursor} (h : Spaced c.rest d.rest)
include h

theorem identifier : Carries (Beside Eq) (Grammar.identifier c) (Grammar.identifier d) :=
  spaced_linewise.identifier h

theorem number : Carries (Beside Eq) (Grammar.number c) (Grammar.number d) :=
  spaced_linewise.number h

theorem stringLiteral :
    Carries (Beside Eq) (Grammar.stringLiteral c) (Grammar.stringLiteral d) :=
  spaced_linewise.stringLiteral h

theorem literal : Carries (Beside Eq) (Grammar.literal c) (Grammar.literal d) :=
  spaced_linewise.literal h

theorem attributeAccessor :
    Carries (Beside Eq) (Grammar.attributeAccessor c) (Grammar.attributeAccessor d) :=
  spaced_linewise.attributeAccessor h

theorem keyText : Carries (Beside Eq) (Grammar.keyText c) (Grammar.keyText d) :=
  spaced_linewise.keyText h

/-- Behind a character that ends no line the texts are still spaced. -/
theorem bump {ch : Char} (hc : c.current = some ch) (hch : ch ≠ '\n') :
    Spaced c.bump.rest d.bump.rest :=
  spaced_linewise.bump h hc hch

theorem expectChar {ch : Char} (hch : ch ≠ '\n') :
    Carries (fun p q => Spaced p.rest q.rest) (Grammar.expectChar c ch)
      (Grammar.expectChar d ch) :=
  spaced_linewise.expectChar h hch

theorem startsNumber_eq : startsNumber d = startsNumber c :=
  spaced_linewise.startsNumber_eq h

theorem atArrow_eq : atArrow d = atArrow c :=
  spaced_linewise.atArrow_eq h

/-- Behind an arrow. -/
theorem advance_arrow (hc : atArrow c = true) : Spaced (c.advance 2).rest (d.advance 2).rest :=
  spaced_linewise.advance_arrow h hc

end Spaced

namespace Near

variable {c d : Cursor} {ch : Char}

/-- Where something stands that starts no entry, the texts are spaced. -/
theorem spaced (h : Near c.rest d.rest) (hc : c.current = some ch) (hch : startsEntry ch = false) :
    Spaced c.rest d.rest :=
  h.resolve_right fun hheads => hheads.left.current_ne hch hc

theorem expectChar (h : Near c.rest d.rest) (hch : startsEntry ch = false) (hfeed : ch ≠ '\n') :
    Carries (fun p q => Spaced p.rest q.rest) (Grammar.expectChar c ch)
      (Grammar.expectChar d ch) := by
  by_cases hc : c.current = some ch
  · exact (h.spaced hc hch).expectChar hfeed
  · exact .of_ne_ok (fun stop hstop => hc (expectChar_eq_ok.1 hstop).1) _

theorem atArrow_eq (h : Near c.rest d.rest) : atArrow d = atArrow c := by
  rcases h with h | h
  · exact h.atArrow_eq
  · rw [h.left.atArrow_eq_false, h.right.atArrow_eq_false]

end Near

end Fluent.Grammar
