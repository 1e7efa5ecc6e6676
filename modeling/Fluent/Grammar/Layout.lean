/-
# The layout of patterns

A pattern may go on over several lines.  The lines that continue it are indented; the first of them
sets the indentation that all of them share, and only what exceeds it belongs to the text.

* `continuation?` looks for the next line of a pattern;
* `PatternBuilder` collects the elements of a pattern, joining texts that meet.
-/
import Fluent.Tree.Basic
import Fluent.Grammar.Failure

namespace Fluent.Grammar

/-! ## Collecting elements -/

/-- The elements of a pattern read so far and the text behind the last of them, both reversed. -/
structure PatternBuilder where
  elements : List PatternElement
  text : List Char

namespace PatternBuilder

/-- Nothing read yet. -/
def empty : PatternBuilder :=
  ⟨[], []⟩

/-- Nothing has been added. -/
def isEmpty (b : PatternBuilder) : Bool :=
  b.elements.isEmpty && b.text.isEmpty

/-- Adds a text. -/
def pushText (text : List Char) (b : PatternBuilder) : PatternBuilder :=
  { b with text := text.reverse ++ b.text }

/-- The elements with the collected text as the last one, if there is any. -/
def flush (b : PatternBuilder) : List PatternElement :=
  if b.text.isEmpty then b.elements else .text (String.ofList b.text.reverse) :: b.elements

/-- Adds the expression of a placeable. -/
def pushPlaceable (expression : Expression) (b : PatternBuilder) : PatternBuilder :=
  ⟨.placeable expression :: b.flush, []⟩

/-- The pattern without the spaces at its end, if anything is left. -/
def finish (b : PatternBuilder) : Option Pattern :=
  let elements := { b with text := b.text.dropWhile (· == ' ') }.flush
  if elements.isEmpty then none else some elements.reverse

end PatternBuilder

/-! ## Continuation lines -/

/-- A line that continues a pattern: the blank lines before it, the spaces it starts with, and the
cursor at its first other character. -/
structure Continuation where
  blankLines : Nat
  indent : Nat
  resume : Cursor

/-- A line that starts with the character, after its indentation, continues no pattern. -/
def endsPattern (ch : Char) : Bool :=
  ch == '[' || ch == '*' || ch == '.' || ch == '}'

/-- Looks for a continuation from the start of a line on, behind `blankLines` blank lines. -/
def continuationFrom? (blankLines : Nat) (line : Cursor) : Option Continuation :=
  match _hc : line.skipBlankInline.current with
  | none => none
  | some '\n' => continuationFrom? (blankLines + 1) line.skipBlankInline.bump
  | some ch =>
    let indent := (line.leading (· == ' ')).length
    if indent = 0 || endsPattern ch then none
    else some ⟨blankLines, indent, line.skipBlankInline⟩
termination_by line.rest.length
decreasing_by
  exact Cursor.length_lt_of_lt
    (Cursor.lt_of_le_of_lt (Cursor.le_skipBlankInline line) (Cursor.lt_bump _hc))

/-- The line that continues a pattern behind the line end under the cursor. -/
def continuation? (c : Cursor) : Option Continuation :=
  continuationFrom? 0 c.bump

/-- Reading of a continuation resumes at its first line or behind it. -/
theorem continuationFrom?_le {blankLines : Nat} {line : Cursor} {next : Continuation}
    (h : continuationFrom? blankLines line = some next) : line ≤ next.resume := by
  fun_induction continuationFrom? blankLines line with
  | case1 | case3 => cases h
  | case2 _ line _ ih =>
    exact Cursor.le_trans (Cursor.le_skipBlankInline line)
      (Cursor.le_trans (Cursor.le_bump _) (ih h))
  | case4 _ line =>
    obtain rfl := Option.some.inj h
    exact Cursor.le_skipBlankInline line

/-- A continuation starts behind the line end. -/
theorem continuation?_lt {c : Cursor} {ch : Char} {next : Continuation} (hc : c.current = some ch)
    (h : continuation? c = some next) : c < next.resume :=
  Cursor.lt_of_lt_of_le (Cursor.lt_bump hc) (continuationFrom?_le h)

end Fluent.Grammar
