/-
# Catalogs

The messages and the terms of one or more resources by their names.  The first definition of a name
stays; messages and terms do not share names.
-/
import Fluent.SortedMap
import Fluent.Tree.Basic

namespace Fluent

/-- Messages and terms by name. -/
structure Catalog where
  messages : SortedMap Message
  terms : SortedMap Term

namespace Catalog

/-- Nothing defined. -/
def empty : Catalog :=
  ⟨.empty, .empty⟩

/-- Adds an entry unless its name is taken; comments and junk define nothing. -/
def addEntry (catalog : Catalog) : Entry → Catalog
  | .message message =>
    { catalog with messages := catalog.messages.insertFirst message.id.name message }
  | .term term => { catalog with terms := catalog.terms.insertFirst term.id.name term }
  | .comment _ | .junk _ => catalog

/-- The entry's name is taken. -/
def isDuplicate (catalog : Catalog) : Entry → Bool
  | .message message => catalog.messages.contains message.id.name
  | .term term => catalog.terms.contains term.id.name
  | .comment _ | .junk _ => false

/-- Adds entries in order and counts those whose name was taken. -/
def addEntries (catalog : Catalog) : List Entry → Catalog × Nat
  | [] => (catalog, 0)
  | entry :: entries =>
    let (result, skipped) := (catalog.addEntry entry).addEntries entries
    (result, skipped + (catalog.isDuplicate entry).toNat)

/-- Adds the entries of a resource and counts those whose name was taken. -/
def add (catalog : Catalog) (resource : Resource) : Catalog × Nat :=
  catalog.addEntries resource.entries

/-- The message of the given name. -/
def message? (catalog : Catalog) (id : String) : Option Message :=
  catalog.messages.find? id

/-- The term of the given name. -/
def term? (catalog : Catalog) (id : String) : Option Term :=
  catalog.terms.find? id

/-- The names of all messages, in order. -/
def messageIds (catalog : Catalog) : List String :=
  catalog.messages.keys

/-- The number of messages and terms. -/
def size (catalog : Catalog) : Nat :=
  catalog.messages.size + catalog.terms.size

end Catalog

end Fluent
