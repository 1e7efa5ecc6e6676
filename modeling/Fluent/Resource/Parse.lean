/-
# Reading a resource

The items of a text become the entries of a resource.  A comment of the first level that ends right
above a message or a term belongs to it; every other comment stands alone.

* `attachComments` : from items to entries;
* `Resource.parse` : from a source to a resource, whatever the source is;
* `Resource.parsePlainly` : the same with each entry read once, under the full limit on nesting.
-/
import Fluent.Text.Lines
import Fluent.Resource.Items

namespace Fluent

open Grammar

/-! ## Attaching comments -/

/-- A comment that waits for the item behind it. -/
structure PendingComment where
  comment : Comment
  stop : Nat
deriving DecidableEq

/-- The entries made so far, in reverse, and the comment that waits. -/
structure Attaching where
  entries : List Entry
  pending : Option PendingComment

namespace Attaching

/-- The waiting comment stands alone. -/
def flush (a : Attaching) : List Entry :=
  match a.pending with
  | some waiting => .comment waiting.comment :: a.entries
  | none => a.entries

/-- The waiting comment, if it ends where the next item starts. -/
def adjacent (a : Attaching) (start : Nat) : Option Comment :=
  match a.pending with
  | some waiting => if waiting.stop = start then some waiting.comment else none
  | none => none

/-- The entries before an item that starts at `start`, if that item may take the waiting comment. -/
def settled (a : Attaching) (start : Nat) : List Entry :=
  if (a.adjacent start).isSome then a.entries else a.flush

/-- Adds an item. -/
def push (a : Attaching) (item : Item) : Attaching :=
  match item.entry with
  | .message message =>
    ⟨.message { message with comment := a.adjacent item.start } :: a.settled item.start, none⟩
  | .term term =>
    ⟨.term { term with comment := a.adjacent item.start } :: a.settled item.start, none⟩
  | .comment comment =>
    if comment.level = .comment then ⟨a.flush, some ⟨comment, item.stop⟩⟩
    else ⟨.comment comment :: a.flush, none⟩
  | .junk junk => ⟨.junk junk :: a.flush, none⟩

end Attaching

/-- The entries that a list of items makes. -/
def attachComments (list : List Item) : List Entry :=
  (list.foldl Attaching.push ⟨[], none⟩).flush.reverse

/-! ## Resources -/

/-- The junk that a source becomes when it is larger than allowed. -/
def oversizedJunk (limit : Nat) (source : List Char) : Junk :=
  let size := utf8Length source
  { content := String.ofList source
    annotations :=
      [{ code := .sourceTooLarge
         message := "source is " ++ size.repr ++ " bytes, larger than the limit of " ++ limit.repr
         span := ⟨0, size⟩ }]
    span := ⟨0, size⟩ }

namespace Resource

/-- Reads a source, entry by entry with the given rule. -/
def parseBy (rule : Rule Entry) (settings : ParserSettings) (source : List Char) : Resource :=
  if settings.maxSourceSize ≠ 0 ∧ settings.maxSourceSize < utf8Length source then
    ⟨[.junk (oversizedJunk settings.maxSourceSize source)]⟩
  else
    ⟨attachComments (items rule settings.maxParseErrors (unifyLineEnds source))⟩

/-- Reads a source. -/
def parse (settings : ParserSettings) (source : List Char) : Resource :=
  parseBy (entryTwice settings.maxNestingDepth) settings source

/-- Reads a source, each entry at once under the full limit on nesting. -/
def parsePlainly (settings : ParserSettings) (source : List Char) : Resource :=
  parseBy (entryWithin settings.maxNestingDepth) settings source

end Resource

end Fluent
