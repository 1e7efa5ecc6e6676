/-
# Printing patterns and expressions

The canonical layout: four spaces for each level, a selection and a text of several lines on lines
of their own below the name they belong to.  Text cannot hold braces, nor start a line with `[`, `*`
or `.`; those are printed as string literals in placeables.

* `printPattern` : a pattern without what stands before it;
* `printValue` : a pattern behind the equals sign or the bracket.
-/
import Fluent.Tree.Basic

namespace Fluent

/-! ## Indentation -/

/-- One level of indentation. -/
def indentation : List Char :=
  [' ', ' ', ' ', ' ']

/-- Indents every line that is not empty; the first one only if `atLineStart` holds. -/
def indentFrom (atLineStart : Bool) : List Char → List Char
  | [] => []
  | ch :: text =>
    if ch = '\n' then ch :: indentFrom true text
    else if atLineStart then indentation ++ ch :: indentFrom false text
    else ch :: indentFrom false text

/-- Indents every line that is not empty. -/
def indentLines (text : List Char) : List Char :=
  indentFrom true text

/-- Indents every line that is not empty, the first one apart. -/
def indentContinuations (text : List Char) : List Char :=
  indentFrom false text

/-! ## Text -/

/-- The character cannot be text at the start of a line. -/
def isSpecialAtLineStart (ch : Char) : Bool :=
  ch == '[' || ch == '*' || ch == '.'

/-- How a character of a text is printed. -/
def printChar (atLineStart : Bool) (ch : Char) : List Char :=
  if ch == '{' || ch == '}' || (atLineStart && isSpecialAtLineStart ch) then
    ['{', ' ', '"', ch, '"', ' ', '}']
  else
    [ch]

/-- How a text is printed. -/
def printText (atLineStart : Bool) : List Char → List Char
  | [] => []
  | ch :: text => printChar atLineStart ch ++ printText (ch == '\n') text

/-- Whether the line starts anew behind a text. -/
def endsLine (atLineStart : Bool) (text : List Char) : Bool :=
  match text.getLast? with
  | some ch => ch == '\n'
  | none => atLineStart

/-! ## Patterns and expressions -/

/-- A string literal with its quotes. -/
def StringLiteral.print (s : StringLiteral) : List Char :=
  '"' :: s.raw.toList ++ ['"']

/-- The value of a named argument. -/
def Literal.print : Literal → List Char
  | .string s => s.print
  | .number n => n.raw.toList

/-- An attribute behind the name that it belongs to. -/
def printAccessor : Option Identifier → List Char
  | some id => '.' :: id.name.toList
  | none => []

/-- A named argument. -/
def NamedArgument.print (argument : NamedArgument) : List Char :=
  argument.name.name.toList ++ [':', ' '] ++ argument.value.print

/-- Texts with a comma between each two. -/
def joinArguments (texts : List (List Char)) : List Char :=
  [',', ' '].intercalate texts

/-- An expression with braces around it if it is placed. -/
def inBraces (placed : Bool) (text : List Char) : List Char :=
  if placed then ['{', ' '] ++ text ++ [' ', '}'] else text

/-- The element takes lines of its own. -/
def PatternElement.isMultiline : PatternElement → Bool
  | .text value => value.toList.contains '\n'
  | .placeable (.select _) => true
  | .placeable _ => false

/-- A printed pattern behind the equals sign or the bracket: on the same line, or on the lines below
if it takes several and its first line may stand there. -/
def layOut (multiline : Bool) (body : List Char) : List Char :=
  if multiline then
    if body.head?.any isSpecialAtLineStart then ' ' :: indentContinuations body
    else '\n' :: indentLines body
  else
    ' ' :: body

mutual

/-- An expression, in braces if it is placed in a pattern. -/
def Expression.print (placed : Bool) : Expression → List Char
  | .string s => inBraces placed s.print
  | .number n => inBraces placed n.raw.toList
  | .var id => inBraces placed ('$' :: id.name.toList)
  | .message id attr => inBraces placed (id.name.toList ++ printAccessor attr)
  | .term id attr none => inBraces placed ('-' :: id.name.toList ++ printAccessor attr)
  | .term id attr (some arguments) =>
    inBraces placed ('-' :: id.name.toList ++ printAccessor attr ++ arguments.print)
  | .function id arguments => inBraces placed (id.name.toList ++ arguments.print)
  | .select selection => ['{', ' '] ++ selection.print ++ ['}']
  | .placeable inner => inBraces placed (inner.print true)

/-- Call arguments with their parentheses. -/
def CallArguments.print : CallArguments → List Char
  | ⟨positional, named⟩ =>
    '(' :: joinArguments (printArguments positional ++ named.map NamedArgument.print) ++ [')']

/-- A selection: the selector, the arrow, and each variant on its own lines. -/
def Selection.print : Selection → List Char
  | ⟨selector, variants, _⟩ =>
    selector.print false ++ [' ', '-', '>', '\n'] ++ printVariants variants

/-- A variant: its key in brackets, behind a star if it is the default, and its value. -/
def Variant.print : Variant → List Char
  | ⟨key, value, isDefault⟩ =>
    (if isDefault then [' ', ' ', ' ', '*', '['] else [' ', ' ', ' ', ' ', '['])
      ++ key.text.toList ++ [']']
      ++ indentContinuations
        (layOut (value.any PatternElement.isMultiline) (printElements false value))
      ++ ['\n']

/-- The elements of a pattern one after the other. -/
def printElements (atLineStart : Bool) : List PatternElement → List Char
  | [] => []
  | .text value :: rest =>
    printText atLineStart value.toList ++ printElements (endsLine atLineStart value.toList) rest
  | .placeable expression :: rest => expression.print true ++ printElements false rest

/-- Variants one after the other. -/
def printVariants : List Variant → List Char
  | [] => []
  | v :: vs => v.print ++ printVariants vs

/-- Arguments given by position, one by one. -/
def printArguments : List Expression → List (List Char)
  | [] => []
  | e :: es => e.print false :: printArguments es

end

/-- A pattern without what stands before it. -/
def printPattern (p : Pattern) : List Char :=
  printElements false p

/-- A pattern behind the equals sign. -/
def printValue (p : Pattern) : List Char :=
  layOut (p.any PatternElement.isMultiline) (printPattern p)

end Fluent
