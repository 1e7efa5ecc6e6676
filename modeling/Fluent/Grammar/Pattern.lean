/-
# Patterns

A pattern is text and placeables, over one or more lines.
-/
import Fluent.Grammar.Layout
import Fluent.Grammar.Nesting

namespace Fluent.Grammar

/-- The character is text: neither a brace nor the end of a line. -/
def isText (ch : Char) : Bool :=
  !(ch == '{' || ch == '}' || ch == '\n')

/-- What a continuation line puts in front of its content: the line ends before it, and the spaces
that exceed the common indentation. -/
def continuationText (next : Continuation) (common : Nat) : List Char :=
  List.replicate (next.blankLines + 1) '\n' ++ List.replicate (next.indent - common) ' '

/-- Any character but the two braces and the line feed is text. -/
theorem isText_of_ne {ch : Char} (hopen : ch ≠ '{') (hclose : ch ≠ '}') (hline : ch ≠ '\n') :
    isText ch = true := by
  simp [isText, hopen, hclose, hline]

/-- Reads a pattern from within: `b` holds what has been read, and `common` the indentation of its
first continuation line if there was one. -/
def patternFrom (deep : Nested) (b : PatternBuilder) (common : Option Nat) (c : Cursor) :
    Reading (Option Pattern × Cursor) :=
  match _hc : c.current with
  | none => .ok (b.finish, c)
  | some ch =>
    if _hopen : ch = '{' then
      match _hp : (deep.placeable []).run c with
      | .error failure => .error failure
      | .ok (expression, next) => patternFrom deep (b.pushPlaceable expression) common next
    else if _hclose : ch = '}' then
      c.fail .unbalancedClosingBrace
    else if _hline : ch = '\n' then
      match _hn : continuation? c with
      | none => .ok (b.finish, c)
      | some next =>
        let shared := common.getD next.indent
        let extended := if b.isEmpty then b else b.pushText (continuationText next shared)
        patternFrom deep extended (some shared) next.resume
    else
      patternFrom deep (b.pushText (c.leading isText)) common (c.skipWhile isText)
termination_by c.rest.length
decreasing_by
  · exact Cursor.length_lt_of_lt ((deep.placeable []).advances _hp)
  · exact Cursor.length_lt_of_lt (continuation?_lt _hc _hn)
  · exact Cursor.length_lt_of_lt (Cursor.lt_skipWhile _hc (isText_of_ne _hopen _hclose _hline))

/-- Reads a pattern; none if it is empty.  The cursor behind it stands on the end of its last
line. -/
def pattern (deep : Nested) (c : Cursor) : Reading (Option Pattern × Cursor) :=
  patternFrom deep .empty none c

theorem patternFrom_le {deep : Nested} {b : PatternBuilder} {common : Option Nat}
    {c stop : Cursor} {p : Option Pattern} (h : patternFrom deep b common c = .ok (p, stop)) :
    c ≤ stop := by
  fun_induction patternFrom deep b common c with
  | case1 | case5 =>
    obtain ⟨-, rfl⟩ := Prod.mk.inj (Except.ok.inj h)
    exact Cursor.le_refl _
  | case2 => cases h
  | case3 _ _ _ _ next hp _ ih =>
    exact Cursor.le_trans (Cursor.le_of_lt ((deep.placeable []).advances hp)) (ih h)
  | case4 => exact absurd h fail_ne_ok
  | case6 _ _ _ next hn _ _ hc _ _ ih =>
    exact Cursor.le_trans (Cursor.le_of_lt (continuation?_lt hc hn)) (ih h)
  | case7 _ _ c _ _ _ _ _ ih => exact Cursor.le_trans (Cursor.le_skipWhile _ c) (ih h)

/-- A pattern never moves back; it may be empty. -/
theorem pattern_le {deep : Nested} {c stop : Cursor} {p : Option Pattern}
    (h : pattern deep c = .ok (p, stop)) : c ≤ stop :=
  patternFrom_le h

end Fluent.Grammar
