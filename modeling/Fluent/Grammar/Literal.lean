/-
# Literals

The rules for number literals and for string literals between quotes.  Both build their trees
through the checked constructors.
-/
import Fluent.Tree.Checked

namespace Fluent.Grammar

/-- The characters a number literal may have. -/
def maxNumberLength : Nat := 1000

/-- Reads an optional minus, digits, and optionally a point with further digits. -/
def numberText (c : Cursor) : Reading (List Char × Cursor) := do
  let sign := if c.current = some '-' then ['-'] else []
  let (whole, point) ← digits (if c.current = some '-' then c.bump else c)
  if point.current = some '.' then
    let (fraction, stop) ← digits point.bump
    return (sign ++ whole ++ '.' :: fraction, stop)
  else
    return (sign ++ whole, point)

/-- Reads a number literal. -/
def number (c : Cursor) : Reading (NumberLiteral × Cursor) := do
  let (raw, stop) ← numberText c
  if maxNumberLength < raw.length then
    c.fail (.tokenTooLong "number literal" maxNumberLength)
  else
    match NumberLiteral.ofRaw (String.ofList raw) with
    | .ok literal => .ok (literal, stop)
    | .error reason => c.fail reason.failureKind

/-- Reads a string literal with its quotes. -/
def stringLiteral (c : Cursor) : Reading (StringLiteral × Cursor) := do
  let start ← expectChar c '"'
  let (value, stop) ← quoted start
  if stop.current = some '"' then
    return (⟨String.ofList value, String.ofList (start.textTo stop)⟩, stop.bump)
  else
    stop.fail .unterminatedString

/-- The text of a number holds at least one digit. -/
theorem numberText_lt {c stop : Cursor} {raw : List Char} (h : numberText c = .ok (raw, stop)) :
    c < stop := by
  have hle : c ≤ if c.current = some '-' then c.bump else c := by
    split
    · exact Cursor.le_bump c
    · exact Cursor.le_refl c
  obtain ⟨⟨whole, point⟩, hw, h⟩ := bind_eq_ok.1 h
  have hlt := Cursor.lt_of_le_of_lt hle (digits_lt hw)
  dsimp only at h
  split at h
  · obtain ⟨⟨fraction, last⟩, hf, h⟩ := bind_eq_ok.1 h
    obtain ⟨-, rfl⟩ := Prod.mk.inj (Except.ok.inj h)
    exact Cursor.lt_trans (Cursor.lt_of_lt_of_le hlt (Cursor.le_bump point)) (digits_lt hf)
  · obtain ⟨-, rfl⟩ := Prod.mk.inj (Except.ok.inj h)
    exact hlt

theorem number_lt {c stop : Cursor} {n : NumberLiteral} (h : number c = .ok (n, stop)) :
    c < stop := by
  obtain ⟨⟨raw, last⟩, hr, h⟩ := bind_eq_ok.1 h
  dsimp only at h
  split at h
  · exact absurd h fail_ne_ok
  · split at h
    · obtain ⟨-, rfl⟩ := Prod.mk.inj (Except.ok.inj h)
      exact numberText_lt hr
    · exact absurd h fail_ne_ok

/-- A string literal reads at least its quotes. -/
theorem stringLiteral_lt {c stop : Cursor} {s : StringLiteral}
    (h : stringLiteral c = .ok (s, stop)) : c < stop := by
  obtain ⟨start, hs, h⟩ := bind_eq_ok.1 h
  obtain ⟨⟨value, last⟩, hq, h⟩ := bind_eq_ok.1 h
  dsimp only at h
  split at h
  · obtain ⟨-, rfl⟩ := Prod.mk.inj (Except.ok.inj h)
    exact Cursor.lt_of_lt_of_le (expectChar_lt hs)
      (Cursor.le_trans (quotedFrom_le hq) (Cursor.le_bump last))
  · exact absurd h fail_ne_ok

end Fluent.Grammar
