/-
# The items of a text

A text is read item by item.  Each item starts at a line that is not blank and is an entry with the
line end behind it, or junk: everything up to the next line that is blank or could start an entry.

* `items` : the items of a text, up to a limit on unreadable ones;
* `entryLine` : an entry and its line end under one limit on nesting;
* `entryTwice` : the same, tried first under a small limit.
-/
import Fluent.Tree.Equality
import Fluent.Grammar.Entry
import Fluent.Settings.Basic

namespace Fluent

open Grammar

/-! ## Lines between items -/

/-- The start of the first line that holds something other than spaces. -/
def Cursor.skipBlankLines (c : Cursor) : Cursor :=
  match _h : c.skipBlankInline.current with
  | none => c.skipBlankInline
  | some ch => if ch = '\n' then c.skipBlankInline.bump.skipBlankLines else c
termination_by c.rest.length
decreasing_by
  exact Cursor.length_lt_of_lt
    (Cursor.lt_of_le_of_lt (Cursor.le_skipBlankInline c) (Cursor.lt_bump _h))

/-- The line at the cursor is blank. -/
def isBlankLine (c : Cursor) : Bool :=
  match c.skipBlankInline.current with
  | none => true
  | some ch => ch == '\n'

/-- An entry may start with the character. -/
def startsEntry (ch : Char) : Bool :=
  isIdentifierStart ch || ch == '-' || ch == '#'

/-- The start of the next line that is blank or could start an entry, or the end of the text. -/
def nextItemStart (c : Cursor) : Cursor :=
  match _h : (c.skipWhile (· != '\n')).current with
  | none => c.skipWhile (· != '\n')
  | some _ =>
    let line := (c.skipWhile (· != '\n')).bump
    if isBlankLine line || line.current.any startsEntry then line else nextItemStart line
termination_by c.rest.length
decreasing_by
  exact Cursor.length_lt_of_lt
    (Cursor.lt_of_le_of_lt (Cursor.le_skipWhile _ c) (Cursor.lt_bump _h))

/-- The end of a line, or of the text. -/
def lineEnd (c : Cursor) : Reading Cursor :=
  match c.current with
  | none => .ok c
  | some ch => if ch = '\n' then .ok c.bump else c.fail .expectedLineEnd

theorem Cursor.le_skipBlankLines (c : Cursor) : c ≤ c.skipBlankLines := by
  fun_induction Cursor.skipBlankLines c with
  | case1 c => exact Cursor.le_skipBlankInline c
  | case2 c _ ih =>
    exact Cursor.le_trans (Cursor.le_skipBlankInline c) (Cursor.le_trans (Cursor.le_bump _) ih)
  | case3 c => exact Cursor.le_refl c

/-- A line end never moves back; at the end of a text it is empty. -/
theorem lineEnd_le {c stop : Cursor} (h : lineEnd c = .ok stop) : c ≤ stop := by
  unfold lineEnd at h
  split at h
  · obtain rfl := Except.ok.inj h
    exact Cursor.le_refl _
  · split at h
    · obtain rfl := Except.ok.inj h
      exact Cursor.le_bump c
    · exact absurd h fail_ne_ok

/-- The start of the next item never lies before the place it is looked for from. -/
theorem le_nextItemStart (c : Cursor) : c ≤ nextItemStart c := by
  fun_induction nextItemStart c with
  | case1 c => exact Cursor.le_skipWhile _ c
  | case2 c => exact Cursor.le_trans (Cursor.le_skipWhile _ c) (Cursor.le_bump _)
  | case3 c _ _ _ _ ih =>
    exact Cursor.le_trans (Cursor.le_trans (Cursor.le_skipWhile _ c) (Cursor.le_bump _)) ih

/-- Junk is not empty. -/
theorem lt_nextItemStart {c : Cursor} (hc : c.rest ≠ []) : c < nextItemStart c := by
  rw [nextItemStart]
  split
  · rename_i h
    have hnil : (c.skipWhile (· != '\n')).rest = [] := by
      simpa [Cursor.current] using h
    refine Cursor.lt_skipWhile_of_leading_ne_nil ?_
    intro hl
    have := List.takeWhile_append_dropWhile (p := (· != '\n')) (l := c.rest)
    rw [show c.rest.takeWhile (· != '\n') = [] from hl,
      show c.rest.dropWhile (· != '\n') = [] from hnil] at this
    exact hc this.symm
  · rename_i ch h
    have hlt : c < (c.skipWhile (· != '\n')).bump :=
      Cursor.lt_of_le_of_lt (Cursor.le_skipWhile _ c) (Cursor.lt_bump h)
    dsimp only
    split
    · exact hlt
    · exact Cursor.lt_of_lt_of_le hlt (le_nextItemStart _)

/-! ## Entries with their line ends -/

/-- Reads an entry and the line end behind it. -/
def entryLine (deep : Nested) : Rule Entry where
  run c := do
    let (found, stop) ← entry deep c
    return (found, ← lineEnd stop)
  advances h := by
    obtain ⟨⟨found, stop⟩, he, h⟩ := bind_eq_ok.1 h
    obtain ⟨last, hl, h⟩ := bind_eq_ok.1 h
    obtain ⟨-, rfl⟩ := Prod.mk.inj (Except.ok.inj h)
    exact Cursor.lt_of_lt_of_le (entry_lt he) (lineEnd_le hl)

/-- Reads an entry under a limit on nesting. -/
def entryWithin (limit : Nat) : Rule Entry :=
  entryLine (nested limit limit)

/-- The nesting that is tried first. -/
def shallowNesting : Nat := 32

/-- Reads an entry under a small limit on nesting, and once more under the full limit if that one is
larger and the small one was exceeded. -/
def entryTwice (limit : Nat) : Rule Entry where
  run c :=
    match (entryWithin (min limit shallowNesting)).run c with
    | .error failure =>
      if failure.isTooDeep && min limit shallowNesting < limit then (entryWithin limit).run c
      else .error failure
    | parsed => parsed
  advances h := by
    split at h
    · split at h
      · exact (entryWithin _).advances h
      · cases h
    · exact (entryWithin _).advances h

/-! ## Items -/

/-- An entry or junk, and the bytes of the text that it takes. -/
structure Item where
  start : Nat
  stop : Nat
  entry : Entry
deriving DecidableEq

/-- The reason for junk as an annotation of a text of `size` bytes. -/
def annotationOf (failure : ParseFailure) (size : Nat) : Annotation :=
  let start := min failure.position size
  { code := if failure.isTooDeep then .nestedTooDeep else .unreadable
    message := failure.message
    span := ⟨start, min (start + 1) size⟩ }

/-- The junk between two cursors. -/
def junkBetween (failure : ParseFailure) (size : Nat) (start stop : Cursor) : Junk :=
  { content := String.ofList (start.textTo stop)
    annotations := [annotationOf failure size]
    span := ⟨start.pos, stop.pos⟩ }

/-- The junk from a cursor to the end of the text, where reading stopped after too many errors:
the last of them reached up to `stop`. -/
def finalJunk (failure : ParseFailure) (limit size : Nat) (start stop : Cursor) : Junk :=
  { content := String.ofList start.rest
    annotations :=
      [annotationOf failure size,
        { code := .tooManyErrors
          message := "parsing stopped after " ++ limit.repr ++ " errors"
          span := ⟨stop.pos, size⟩ }]
    span := ⟨start.pos, size⟩ }

/-- The items from a cursor on, in a text of `size` bytes.  `before` holds, in reverse, the items
met so far, and `errors` says how many of them are junk; with the last one that `limit` allows
reading stops, and it takes the rest of the text. -/
def itemsFrom (rule : Rule Entry) (limit size : Nat) (before : List Item) (errors : Nat)
    (c : Cursor) : List Item :=
  if _hc : c.rest = [] then
    before.reverse
  else
    match _hr : rule.run c with
    | .ok (found, stop) =>
      itemsFrom rule limit size (⟨c.pos, stop.pos, found⟩ :: before) errors stop.skipBlankLines
    | .error failure =>
      let stop := nextItemStart c
      if limit ≠ 0 ∧ limit ≤ errors + 1 ∧ stop.atEnd = false then
        (⟨c.pos, size, .junk (finalJunk failure limit size c stop)⟩ :: before).reverse
      else
        itemsFrom rule limit size
          (⟨c.pos, stop.pos, .junk (junkBetween failure size c stop)⟩ :: before)
          (errors + 1) stop.skipBlankLines
termination_by c.rest.length
decreasing_by
  · exact Cursor.length_lt_of_lt
      (Cursor.lt_of_lt_of_le (rule.advances _hr) (Cursor.le_skipBlankLines stop))
  · exact Cursor.length_lt_of_lt
      (Cursor.lt_of_lt_of_le (lt_nextItemStart _hc) (Cursor.le_skipBlankLines _))

/-- The items of a text. -/
def items (rule : Rule Entry) (limit : Nat) (text : List Char) : List Item :=
  itemsFrom rule limit (utf8Length text) [] 0 (Cursor.ofText text).skipBlankLines

end Fluent
