/-
# Printing resources

The canonical text of a resource: an empty line between entries, attributes on indented lines of
their own.  Junk is printed as it was read, with nothing added around it.
-/
import Fluent.Text.Lines
import Fluent.Tree.Print

namespace Fluent

/-- A line of a comment. -/
def printCommentLine (level : CommentLevel) (line : List Char) : List Char :=
  List.replicate level.hashes '#' ++ (if line.isEmpty then [] else ' ' :: line) ++ ['\n']

/-- A comment, line by line. -/
def Comment.print (c : Comment) : List Char :=
  (splitLines c.content.toList).flatMap (printCommentLine c.level)

/-- An attribute on the line below. -/
def Attribute.print (attr : Attribute) : List Char :=
  '\n' :: indentation ++ '.' :: attr.id.name.toList ++ [' ', '=']
    ++ indentContinuations (printValue attr.value)

/-- The comment of an entry, if it has one. -/
def printAttached (comment : Option Comment) : List Char :=
  (comment.map Comment.print).getD []

/-- A message with its comment and attributes. -/
def Message.print (m : Message) : List Char :=
  printAttached m.comment ++ m.id.name.toList ++ [' ', '='] ++ (m.value.map printValue).getD []
    ++ m.attributes.flatMap Attribute.print ++ ['\n']

/-- A term with its comment and attributes. -/
def Term.print (t : Term) : List Char :=
  printAttached t.comment ++ '-' :: t.id.name.toList ++ [' ', '='] ++ printValue t.value
    ++ t.attributes.flatMap Attribute.print ++ ['\n']

/-- An entry; one that is not junk starts with an empty line unless it is the first or follows
junk. -/
def Entry.print (separate : Bool) : Entry → List Char
  | .message m => (if separate then ['\n'] else []) ++ m.print
  | .term t => (if separate then ['\n'] else []) ++ t.print
  | .comment c => (if separate then ['\n'] else []) ++ c.print
  | .junk j => j.content.toList

/-- The entry is junk. -/
def Entry.isJunk : Entry → Bool
  | .junk _ => true
  | _ => false

/-- Entries one after the other; `separate` says that an entry that is not junk stands before
them. -/
def printEntries (separate : Bool) : List Entry → List Char
  | [] => []
  | entry :: entries => entry.print separate ++ printEntries (!entry.isJunk) entries

/-- The canonical text of a resource. -/
def Resource.print (r : Resource) : List Char :=
  printEntries false r.entries

end Fluent
