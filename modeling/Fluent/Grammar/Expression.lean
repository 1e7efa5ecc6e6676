/-
# Inline expressions

Literals, references, calls and nested placeables: what may stand in a placeable or as an argument.
-/
import Fluent.Grammar.Literal
import Fluent.Grammar.Nesting

namespace Fluent.Grammar

/-- Reads a point with a name behind it, if a point is there. -/
def attributeAccessor (c : Cursor) : Reading (Option Identifier × Cursor) :=
  if c.current = some '.' then do
    let (name, stop) ← identifier c.bump
    return (some ⟨name⟩, stop)
  else
    .ok (none, c)

/-- Reads a reference to a term: a minus, a name, and optionally an attribute and arguments. -/
def termReference (deep : Nested) (c : Cursor) : Reading (Expression × Cursor) := do
  let start ← expectChar c '-'
  let (name, point) ← identifier start
  let (attr, stop) ← attributeAccessor point
  if stop.skipBlank.current = some '(' then
    let (arguments, stop) ← deep.arguments.run stop.skipBlank
    return (.term ⟨name⟩ attr (some arguments), stop)
  else
    return (.term ⟨name⟩ attr none, stop)

/-- Reads a call of a function, or a reference to a message or one of its attributes. -/
def messageOrFunction (deep : Nested) (c : Cursor) : Reading (Expression × Cursor) := do
  let (name, point) ← identifier c
  if point.skipBlank.current = some '(' then
    let (arguments, stop) ← deep.arguments.run point.skipBlank
    return (.function ⟨name⟩ arguments, stop)
  else
    let (attr, stop) ← attributeAccessor point
    return (.message ⟨name⟩ attr, stop)

/-- Reads a dollar sign and the name of a variable. -/
def variableReference (c : Cursor) : Reading (Expression × Cursor) := do
  let (name, stop) ← identifier c.bump
  return (.var ⟨name⟩, stop)

/-- A number starts at the cursor. -/
def startsNumber (c : Cursor) : Bool :=
  match c.current with
  | some '-' => (c.peek 1).any Char.isDigit
  | some ch => ch.isDigit
  | none => false

/-- Reads an inline expression. -/
def inlineExpression (deep : Nested) (c : Cursor) : Reading (Expression × Cursor) :=
  if startsNumber c then do
    let (literal, stop) ← number c
    return (.number literal, stop)
  else if c.current = some '"' then do
    let (literal, stop) ← stringLiteral c
    return (.string literal, stop)
  else if c.current = some '-' then
    termReference deep c
  else if c.current = some '$' then
    variableReference c
  else if c.current = some '{' then do
    let (inner, stop) ← (deep.placeable []).run c
    return (.placeable inner, stop)
  else if c.current.any isIdentifierStart then
    messageOrFunction deep c
  else
    .error ⟨c.pos, .expectedInlineExpression,
      ["a string literal", "a number literal", "a variable reference",
        "a message or term reference", "a function call"]⟩

/-- Reads the value of a named argument. -/
def literal (c : Cursor) : Reading (Literal × Cursor) :=
  if startsNumber c then do
    let (literal, stop) ← number c
    return (.number literal, stop)
  else if c.current = some '"' then do
    let (literal, stop) ← stringLiteral c
    return (.string literal, stop)
  else
    c.fail .namedArgumentNotLiteral

/-! ## Expressions are not empty -/

/-- An attribute accessor never moves back; there may be none. -/
theorem attributeAccessor_le {c stop : Cursor} {attr : Option Identifier}
    (h : attributeAccessor c = .ok (attr, stop)) : c ≤ stop := by
  unfold attributeAccessor at h
  split at h
  · obtain ⟨⟨name, last⟩, hi, h⟩ := bind_eq_ok.1 h
    obtain ⟨-, rfl⟩ := Prod.mk.inj (Except.ok.inj h)
    exact Cursor.le_trans (Cursor.le_bump c) (Cursor.le_of_lt (identifier_lt hi))
  · obtain ⟨-, rfl⟩ := Prod.mk.inj (Except.ok.inj h)
    exact Cursor.le_refl c

/-- A term reference reads at least its hyphen. -/
theorem termReference_lt {deep : Nested} {c stop : Cursor} {e : Expression}
    (h : termReference deep c = .ok (e, stop)) : c < stop := by
  obtain ⟨start, hs, h⟩ := bind_eq_ok.1 h
  obtain ⟨⟨name, point⟩, hi, h⟩ := bind_eq_ok.1 h
  obtain ⟨⟨attr, last⟩, ha, h⟩ := bind_eq_ok.1 h
  have hlt : c < last := Cursor.lt_trans (expectChar_lt hs)
    (Cursor.lt_of_lt_of_le (identifier_lt hi) (attributeAccessor_le ha))
  dsimp only at h
  split at h
  · obtain ⟨⟨arguments, close⟩, hc, h⟩ := bind_eq_ok.1 h
    obtain ⟨-, rfl⟩ := Prod.mk.inj (Except.ok.inj h)
    exact Cursor.lt_of_lt_of_le hlt (Cursor.le_trans (Cursor.le_skipBlank last)
      (Cursor.le_of_lt (deep.arguments.advances hc)))
  · obtain ⟨-, rfl⟩ := Prod.mk.inj (Except.ok.inj h)
    exact hlt

/-- A message reference or a function call reads at least its name. -/
theorem messageOrFunction_lt {deep : Nested} {c stop : Cursor} {e : Expression}
    (h : messageOrFunction deep c = .ok (e, stop)) : c < stop := by
  obtain ⟨⟨name, point⟩, hi, h⟩ := bind_eq_ok.1 h
  dsimp only at h
  split at h
  · obtain ⟨⟨arguments, close⟩, hc, h⟩ := bind_eq_ok.1 h
    obtain ⟨-, rfl⟩ := Prod.mk.inj (Except.ok.inj h)
    exact Cursor.lt_of_lt_of_le (identifier_lt hi) (Cursor.le_trans (Cursor.le_skipBlank point)
      (Cursor.le_of_lt (deep.arguments.advances hc)))
  · obtain ⟨⟨attr, last⟩, ha, h⟩ := bind_eq_ok.1 h
    obtain ⟨-, rfl⟩ := Prod.mk.inj (Except.ok.inj h)
    exact Cursor.lt_of_lt_of_le (identifier_lt hi) (attributeAccessor_le ha)

/-- A variable reference reads at least its dollar sign. -/
theorem variableReference_lt {c stop : Cursor} {e : Expression}
    (h : variableReference c = .ok (e, stop)) : c < stop := by
  obtain ⟨⟨name, last⟩, hi, h⟩ := bind_eq_ok.1 h
  obtain ⟨-, rfl⟩ := Prod.mk.inj (Except.ok.inj h)
  exact Cursor.lt_of_le_of_lt (Cursor.le_bump c) (identifier_lt hi)

/-- A rule whose value is only wrapped reads as much as before. -/
theorem lt_of_map {α β : Type} {rule : Reading (α × Cursor)} {f : α → β} {c stop : Cursor} {b : β}
    (hr : ∀ {a : α} {last : Cursor}, rule = .ok (a, last) → c < last)
    (h : (do let (a, last) ← rule; return (f a, last) : Reading (β × Cursor)) = .ok (b, stop)) :
    c < stop := by
  obtain ⟨⟨a, last⟩, ha, h⟩ := bind_eq_ok.1 h
  obtain ⟨-, rfl⟩ := Prod.mk.inj (Except.ok.inj h)
  exact hr ha

theorem inlineExpression_lt {deep : Nested} {c stop : Cursor} {e : Expression}
    (h : inlineExpression deep c = .ok (e, stop)) : c < stop := by
  unfold inlineExpression at h
  split at h
  · exact lt_of_map number_lt h
  split at h
  · exact lt_of_map stringLiteral_lt h
  split at h
  · exact termReference_lt h
  split at h
  · exact variableReference_lt h
  split at h
  · exact lt_of_map (deep.placeable []).advances h
  split at h
  · exact messageOrFunction_lt h
  · cases h

theorem literal_lt {c stop : Cursor} {l : Literal} (h : literal c = .ok (l, stop)) :
    c < stop := by
  unfold literal at h
  split at h
  · exact lt_of_map number_lt h
  split at h
  · exact lt_of_map stringLiteral_lt h
  · exact absurd h fail_ne_ok

end Fluent.Grammar
