/-
# Texts of scalars

A scalar may run over several lines.  White space within a line is kept, a single line end counts as
a space, and of several line ends the first is dropped; blanks around line ends are dropped.

* `plain?`, `doubleQuoted?`, `singleQuoted?` : the three kinds of scalars.
-/
import Fluent.Text.Hex
import Fluent.Yaml.Place

namespace Fluent.Yaml

/-- The text of a scalar so far, its last character first, and the white space behind it, which is
not yet part of the text. -/
structure ScalarText where
  text : List Char := []
  /-- The blanks of a line, the last one first. -/
  blanks : List Char := []
  /-- The white space goes beyond its line. -/
  broken : Bool := false
  /-- The first line end, unless it was escaped. -/
  firstBreak : Option Char := none
  /-- The line ends behind the first one, the last one first. -/
  moreBreaks : List Char := []

namespace ScalarText

/-- White space stands behind the text. -/
def hasGap (s : ScalarText) : Bool :=
  s.broken || !s.blanks.isEmpty

/-- What the white space behind the text stands for, the last character first. -/
def gap (s : ScalarText) : List Char :=
  if s.broken then
    match s.firstBreak with
    | some '\n' => if s.moreBreaks.isEmpty then [' '] else s.moreBreaks
    | some ch => s.moreBreaks ++ [ch]
    | none => s.moreBreaks
  else s.blanks

/-- The text with the white space behind it. -/
def flush (s : ScalarText) : ScalarText :=
  { text := s.gap ++ s.text }

/-- A character follows. -/
def push (s : ScalarText) (ch : Char) : ScalarText :=
  { text := ch :: s.gap ++ s.text }

/-- A blank follows; it counts in the first line only. -/
def blank (s : ScalarText) (ch : Char) : ScalarText :=
  if s.broken then s else { s with blanks := ch :: s.blanks }

/-- A line end follows. -/
def lineEnd (s : ScalarText) (ch : Char) : ScalarText :=
  let ch := if ch = '\u0085' || ch = '\r' then '\n' else ch
  if s.broken then { s with moreBreaks := ch :: s.moreBreaks }
  else { s with blanks := [], broken := true, firstBreak := some ch }

/-- An escaped line end follows, which counts for nothing. -/
def escapedLineEnd (s : ScalarText) : ScalarText :=
  { s.flush with broken := true }

/-- The text in order. -/
def result (s : ScalarText) : String :=
  String.ofList s.text.reverse

end ScalarText

/-- A scalar that has been read: its text, the place behind it, and what follows. -/
abbrev ScalarReading := ScalarText × Place × List Char

/-! ## Plain scalars -/

/-- A plain scalar may not begin with these characters. -/
def indicators : List Char :=
  ['-', '?', ':', ',', '[', ']', '\x7b', '\x7d', '#', '&', '*', '!', '|', '>', '\x27', '"', '%',
    '@', '\x60']

/-- A plain scalar may begin here.  A dash may begin it in front of something other than a blank,
and outside of brackets question marks and colons in front of something other than white space. -/
def beginsPlain (inFlow : Bool) : List Char → Bool
  | [] => false
  | ch :: text =>
    !(isBlank ch || isBreak ch || indicators.contains ch) ||
      (ch = '-' && !text.head?.any isBlank) ||
      (!inFlow && (ch = '?' || ch = ':') && !beginsBlank text)

/-- A plain scalar.  It ends at a comment, at a colon in front of white space, within brackets at
marks, and outside of them at a line that is indented less than it must be. -/
def plain? (inFlow : Bool) (indent : Nat) (s : ScalarText) (place : Place) :
    List Char → Option ScalarReading
  | [] => some (s, place, [])
  | ch :: text =>
    if isBlank ch then
      if s.broken && ch = '\t' && place.column < indent then none
      else plain? inFlow indent (s.blank ch) (place.next 1) text
    else if isBreak ch then plain? inFlow indent (s.lineEnd ch) place.nextLine text
    else if s.hasGap && (ch = '#' || (!inFlow && place.column < indent) ||
        (documentMark? place (ch :: text)).isSome) then
      some (s, place, ch :: text)
    else if inFlow && ch = ':' && text.head?.any fun ch => ch = '?' || isFlowMark ch then none
    else if (ch = ':' && beginsBlank text) || (inFlow && isFlowMark ch) then
      some (s, place, ch :: text)
    else plain? inFlow indent (s.push ch) (place.next 1) text

/-! ## Quoted scalars -/

/-- Letters that stand for one character behind a backslash. -/
def escapeLetters : List (Char × Char) :=
  [('"', '"'), ('\\', '\\'), ('/', '/'), ('0', '\x00'), ('a', '\x07'), ('b', '\x08'),
    ('t', '\t'), ('\t', '\t'), ('n', '\n'), ('v', '\x0b'), ('f', '\x0c'), ('r', '\r'),
    ('e', '\x1b'), (' ', ' '), ('N', '\u0085'), ('_', '\u00a0'), ('L', '\u2028'), ('P', '\u2029')]

/-- Letters that are followed by the given number of hexadecimal digits. -/
def escapeCodes : List (Char × Nat) :=
  [('x', 2), ('u', 4), ('U', 8)]

/-- How far an escape has been read: not begun, its backslash, or some of its digits. -/
inductive Escape
  | outside
  | letter
  | digits (left value : Nat)

/-- A scalar between double quotes, read behind the opening one. -/
def doubleQuoted? (escape : Escape) (s : ScalarText) (place : Place) :
    List Char → Option ScalarReading
  | [] => none
  | ch :: text =>
    match escape with
    | .digits left value =>
      if !isHexDigit ch then none
      else if 1 < left then
        doubleQuoted? (.digits (left - 1) (16 * value + hexDigitValue ch)) s (place.next 1) text
      else
        (charOfCodePoint? (16 * value + hexDigitValue ch)).bind fun named =>
          doubleQuoted? .outside (s.push named) (place.next 1) text
    | .letter =>
      if isBreak ch then doubleQuoted? .outside s.escapedLineEnd place.nextLine text
      else
        match escapeLetters.lookup ch, escapeCodes.lookup ch with
        | some named, _ => doubleQuoted? .outside (s.push named) (place.next 1) text
        | none, some count => doubleQuoted? (.digits count 0) s (place.next 1) text
        | none, none => none
    | .outside =>
      if (documentMark? place (ch :: text)).isSome then none
      else if ch = '"' then some (s.flush, place.next 1, text)
      else if ch = '\\' then doubleQuoted? .letter s (place.next 1) text
      else if isBlank ch then doubleQuoted? .outside (s.blank ch) (place.next 1) text
      else if isBreak ch then doubleQuoted? .outside (s.lineEnd ch) place.nextLine text
      else doubleQuoted? .outside (s.push ch) (place.next 1) text

/-- A scalar between single quotes, read behind the opening one; `quote` tells that a quote stands
right in front.  A quote within the scalar is written twice. -/
def singleQuoted? (quote : Bool) (s : ScalarText) (place : Place) :
    List Char → Option ScalarReading
  | [] => if quote then some (s.flush, place, []) else none
  | ch :: text =>
    if quote && ch != '\x27' then some (s.flush, place, ch :: text)
    else if quote then singleQuoted? false (s.push ch) (place.next 1) text
    else if (documentMark? place (ch :: text)).isSome then none
    else if ch = '\x27' then singleQuoted? true s (place.next 1) text
    else if isBlank ch then singleQuoted? false (s.blank ch) (place.next 1) text
    else if isBreak ch then singleQuoted? false (s.lineEnd ch) place.nextLine text
    else singleQuoted? false (s.push ch) (place.next 1) text

end Fluent.Yaml
