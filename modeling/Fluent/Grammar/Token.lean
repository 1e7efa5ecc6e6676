/-
# Tokens

The smallest rules: single characters, identifiers and runs of digits.

* `expectChar_lt`, `identifier_lt`, `digits_lt` : a token that is read is not empty.
-/
import Fluent.Grammar.Failure

namespace Fluent.Grammar

/-- The characters an identifier may have. -/
def maxIdentifierLength : Nat := 256

/-- An identifier may start with the character. -/
def isIdentifierStart (ch : Char) : Bool :=
  ch.isAlpha

/-- An identifier may go on with the character. -/
def isIdentifierChar (ch : Char) : Bool :=
  ch.isAlphanum || ch == '_' || ch == '-'

/-- Reads the given character. -/
def expectChar (c : Cursor) (ch : Char) : Reading Cursor :=
  if c.current = some ch then .ok c.bump else c.fail (.expectedToken ch)

/-- Reads a letter and all letters, digits, underscores and hyphens that follow. -/
def identifier (c : Cursor) : Reading (String × Cursor) :=
  if c.current.any isIdentifierStart then
    if maxIdentifierLength < (c.leading isIdentifierChar).length then
      c.fail (.tokenTooLong "identifier" maxIdentifierLength)
    else
      .ok (String.ofList (c.leading isIdentifierChar), c.skipWhile isIdentifierChar)
  else
    c.fail (.expectedCharacterIn "a-zA-Z")

/-- Reads all digits that follow, at least one. -/
def digits (c : Cursor) : Reading (List Char × Cursor) :=
  if c.leading Char.isDigit = [] then c.fail (.expectedCharacterIn "0-9")
  else .ok (c.leading Char.isDigit, c.skipWhile Char.isDigit)

/-- A character is accepted exactly when it is the next one, and then one character is read. -/
theorem expectChar_eq_ok {c stop : Cursor} {ch : Char} :
    expectChar c ch = .ok stop ↔ c.current = some ch ∧ stop = c.bump := by
  unfold expectChar
  by_cases hc : c.current = some ch
  · rw [if_pos hc]
    exact ⟨fun h => ⟨hc, (Except.ok.inj h).symm⟩, fun h => by rw [h.2]⟩
  · rw [if_neg hc]
    exact ⟨fun h => absurd h fail_ne_ok, fun h => absurd h.1 hc⟩

/-- An accepted character is read. -/
theorem expectChar_lt {c stop : Cursor} {ch : Char} (h : expectChar c ch = .ok stop) :
    c < stop := by
  obtain ⟨hc, rfl⟩ := expectChar_eq_ok.1 h
  exact Cursor.lt_bump hc

/-- A character that may start an identifier may also stand inside one. -/
theorem isIdentifierChar_of_start {ch : Char} (h : isIdentifierStart ch = true) :
    isIdentifierChar ch = true := by
  simp only [isIdentifierStart] at h
  simp [isIdentifierChar, Char.isAlphanum, h]

/-- An identifier reads at least the letter it starts with. -/
theorem identifier_lt {c stop : Cursor} {name : String} (h : identifier c = .ok (name, stop)) :
    c < stop := by
  unfold identifier at h
  by_cases hs : c.current.any isIdentifierStart
  · obtain ⟨ch, hc, hch⟩ := Option.any_eq_true _ _ |>.1 hs
    rw [if_pos hs] at h
    by_cases hl : maxIdentifierLength < (c.leading isIdentifierChar).length
    · rw [if_pos hl] at h
      exact absurd h fail_ne_ok
    · rw [if_neg hl] at h
      obtain ⟨-, rfl⟩ := Prod.mk.inj (Except.ok.inj h)
      exact Cursor.lt_skipWhile hc (isIdentifierChar_of_start hch)
  · rw [if_neg hs] at h
    exact absurd h fail_ne_ok

/-- A run of digits reads at least one of them. -/
theorem digits_lt {c stop : Cursor} {run : List Char} (h : digits c = .ok (run, stop)) :
    c < stop := by
  unfold digits at h
  by_cases hr : c.leading Char.isDigit = []
  · rw [if_pos hr] at h
    exact absurd h fail_ne_ok
  · rw [if_neg hr] at h
    obtain ⟨-, rfl⟩ := Prod.mk.inj (Except.ok.inj h)
    exact Cursor.lt_skipWhile_of_leading_ne_nil hr

end Fluent.Grammar
