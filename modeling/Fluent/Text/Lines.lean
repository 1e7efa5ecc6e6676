/-
# Lines

Splitting a text at its line feeds, joining lines, and writing all line ends as line feeds.

* `joinLines_splitLines` : splitting loses nothing;
* `unifyLineEnds` : carriage returns become line feeds, a pair of both becomes one.
-/

namespace Fluent

/-- The lines of a text; a line feed ends one and starts the next. -/
def splitLines : List Char → List (List Char)
  | [] => [[]]
  | ch :: text =>
    match splitLines text with
    | [] => [[ch]]
    | line :: lines => if ch = '\n' then [] :: line :: lines else (ch :: line) :: lines

/-- Lines with a line feed between each two. -/
def joinLines (lines : List (List Char)) : List Char :=
  ['\n'].intercalate lines

/-- A text has at least one line. -/
theorem splitLines_ne_nil (text : List Char) : splitLines text ≠ [] := by
  cases text with
  | nil => simp [splitLines]
  | cons ch text =>
    rw [splitLines]
    split
    · simp
    · split <;> simp

/-- Lines are joined with a line feed behind the first. -/
theorem joinLines_cons_cons (line next : List Char) (lines : List (List Char)) :
    joinLines (line :: next :: lines) = line ++ '\n' :: joinLines (next :: lines) := by
  simp [joinLines, List.intercalate, List.intersperse]

/-- Splitting a text into lines loses nothing. -/
theorem joinLines_splitLines (text : List Char) : joinLines (splitLines text) = text := by
  induction text with
  | nil => rfl
  | cons ch text ih =>
    rw [splitLines]
    split
    · rename_i h
      exact absurd h (splitLines_ne_nil text)
    · rename_i line lines h
      rw [h] at ih
      split
      · rename_i hc
        rw [joinLines_cons_cons, ih, hc]
        rfl
      · cases lines with
        | nil => simpa [joinLines, List.intercalate] using ih
        | cons next lines =>
          rw [joinLines_cons_cons] at ih ⊢
          rw [List.cons_append, ih]

/-! ## Line ends -/

/-- Every carriage return directly before a line feed is dropped. -/
def dropPairedReturns : List Char → List Char
  | '\r' :: '\n' :: text => '\n' :: dropPairedReturns text
  | ch :: text => ch :: dropPairedReturns text
  | [] => []

/-- Every carriage return becomes a line feed. -/
def returnsToLineFeeds (text : List Char) : List Char :=
  text.map fun ch => if ch = '\r' then '\n' else ch

/-- The text with a single line feed for each line end, however it was written. -/
def unifyLineEnds (text : List Char) : List Char :=
  if text.contains '\r' then returnsToLineFeeds (dropPairedReturns text) else text

end Fluent
