/-
# Placeables

A placeable is an expression in braces.  Braces that stand directly inside braces are opened in a
row, and closed again one by one.

* `nested` : the rules for braces and parentheses, by the number of levels that are free;
* `plainNested` : the same by plain recursion, where an inner brace is read like any expression.
-/
import Fluent.Grammar.Selection
import Fluent.Grammar.Call

namespace Fluent.Grammar

/-- Closes the braces that were opened directly around a placeable, from the inside out, and wraps
the expression in them.  A placeable may not be selected on. -/
def closeWrappers : List Nat → Expression → Cursor → Reading (Expression × Cursor)
  | [], e, c => .ok (e, c)
  | start :: wrappers, e, c => do
    if atArrow c.skipBlank then
      .error ⟨start, .expectedSimpleSelector, []⟩
    else
      closeWrappers wrappers (.placeable e) (← expectChar c.skipBlank '}')

/-- Reads a placeable whose brace is not directly followed by another one, from behind the brace;
`deep` are the rules for what it holds. -/
def closeBody (deep : Nested) (wrappers : List Nat) (c : Cursor) :
    Reading (Expression × Cursor) := do
  let (e, stop) ← body deep c
  closeWrappers wrappers e (← expectChar stop.skipBlank '}')

/-- Reads a placeable; `deep` are the rules for what it holds. -/
def placeable (deep : Nested) (wrappers : List Nat) (c : Cursor) :
    Reading (Expression × Cursor) := do
  let start := (← expectChar c '{').skipBlank
  if start.current = some '{' then (deep.placeable (start.pos :: wrappers)).run start
  else closeBody deep wrappers start

/-- Closing the braces around an expression never moves back; there may be none. -/
theorem closeWrappers_le {wrappers : List Nat} {e result : Expression} {c stop : Cursor}
    (h : closeWrappers wrappers e c = .ok (result, stop)) : c ≤ stop := by
  induction wrappers generalizing e c with
  | nil =>
    obtain ⟨-, rfl⟩ := Prod.mk.inj (Except.ok.inj h)
    exact Cursor.le_refl c
  | cons start wrappers ih =>
    unfold closeWrappers at h
    split at h
    · cases h
    · obtain ⟨close, hc, h⟩ := bind_eq_ok.1 h
      exact Cursor.le_trans (Cursor.le_skipBlank c)
        (Cursor.le_trans (Cursor.le_of_lt (expectChar_lt hc)) (ih h))

/-- The body of the innermost placeable and its closing brace read at least one character. -/
theorem closeBody_lt {deep : Nested} {wrappers : List Nat} {e : Expression} {c stop : Cursor}
    (h : closeBody deep wrappers c = .ok (e, stop)) : c < stop := by
  obtain ⟨⟨inner, last⟩, hb, h⟩ := bind_eq_ok.1 h
  obtain ⟨close, hc, h⟩ := bind_eq_ok.1 h
  exact Cursor.lt_of_lt_of_le (body_lt hb) (Cursor.le_trans (Cursor.le_skipBlank last)
    (Cursor.le_trans (Cursor.le_of_lt (expectChar_lt hc)) (closeWrappers_le h)))

/-- A placeable reads at least its braces, however many are opened at once. -/
theorem placeable_lt {deep : Nested} {wrappers : List Nat} {e : Expression} {c stop : Cursor}
    (h : placeable deep wrappers c = .ok (e, stop)) : c < stop := by
  obtain ⟨start, hs, h⟩ := bind_eq_ok.1 h
  refine Cursor.lt_trans (Cursor.lt_of_lt_of_le (expectChar_lt hs) (Cursor.le_skipBlank start)) ?_
  dsimp only at h
  split at h
  · exact (deep.placeable _).advances h
  · exact closeBody_lt h

/-- The rules for braces and parentheses when `left` of `limit` levels are free. -/
def nested (limit : Nat) : Nat → Nested
  | 0 => .none limit
  | left + 1 =>
    { placeable := fun wrappers => ⟨fun c => placeable (nested limit left) wrappers c, placeable_lt⟩
      arguments := ⟨fun c => arguments (nested limit left) c, arguments_lt⟩ }

/-- The rules for braces and parentheses under an allowance. -/
def Allowance.rules (allowance : Allowance) : Nested :=
  nested allowance.limit allowance.left

/-- The rules for braces and parentheses, by plain recursion: the inner of two braces in a row is
read as an inline expression. -/
def plainNested (limit : Nat) : Nat → Nested
  | 0 => .none limit
  | left + 1 =>
    { placeable := fun wrappers =>
        ⟨fun c => do closeBody (plainNested limit left) wrappers (← expectChar c '{').skipBlank,
          fun h => by
            obtain ⟨start, hs, h⟩ := bind_eq_ok.1 h
            exact Cursor.lt_trans (Cursor.lt_of_lt_of_le (expectChar_lt hs)
              (Cursor.le_skipBlank start)) (closeBody_lt h)⟩
      arguments := ⟨fun c => arguments (plainNested limit left) c, arguments_lt⟩ }

end Fluent.Grammar
