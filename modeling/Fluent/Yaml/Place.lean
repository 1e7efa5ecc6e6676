/-
# Characters and places of YAML

The characters that a document may hold, its white space, and the place of a character: how many
characters and lines stand in front of it, and its column.
-/

namespace Fluent.Yaml

/-- White space within a line. -/
def isBlank (ch : Char) : Bool :=
  ch = ' ' || ch = '\t'

/-- A character that ends a line. -/
def isBreak (ch : Char) : Bool :=
  ['\n', '\r', '\u0085', '\u2028', '\u2029'].contains ch

/-- The text begins with white space, or there is none. -/
def beginsBlank (text : List Char) : Bool :=
  text.head?.all fun ch => isBlank ch || isBreak ch

/-- A character that may stand in a document: no control character but tabs and line ends, and none
of the last two below 2^16. -/
def isAllowed (ch : Char) : Bool :=
  ch = '\t' || isBreak ch || (' ' ≤ ch && ch ≤ '~') || ('\u00a0' ≤ ch && ch ≤ '\ufffd') ||
    '\ufffd'.toNat + 2 < ch.toNat

/-- A place in a document. -/
structure Place where
  index : Nat := 0
  line : Nat := 0
  column : Nat := 0

/-- The place behind some characters of the same line. -/
def Place.next (place : Place) (count : Nat) : Place :=
  { place with index := place.index + count, column := place.column + count }

/-- The place behind the end of a line. -/
def Place.nextLine (place : Place) : Place :=
  ⟨place.index + 1, place.line + 1, 0⟩

/-! ## Marks -/

/-- A mark that stands at the start of a line and separates documents. -/
inductive DocumentMark
  | start
  | stop
deriving DecidableEq

/-- The mark at the start of a text: three dashes or three points, and white space behind them. -/
def documentMark? (place : Place) (text : List Char) : Option DocumentMark :=
  if place.column = 0 && beginsBlank (text.drop 3) then
    if text.take 3 = ['-', '-', '-'] then some .start
    else if text.take 3 = ['.', '.', '.'] then some .stop
    else none
  else none

/-- A bracket, a brace or a comma: within brackets these end a plain scalar. -/
def isFlowMark (ch : Char) : Bool :=
  ['[', ']', '\x7b', '\x7d', ','].contains ch

end Fluent.Yaml
