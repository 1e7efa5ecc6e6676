/-
# Parts of entries

An entry is made of one item, or of two if a comment was attached to it.  Taken apart again, the
entries of a resource are the items that they were made of.

* `attachComments_parts` : attaching comments loses no item and adds none;
* `filterMap_junk_parts` : attaching comments does not touch junk.
-/
import Fluent.Proofs.Resource.Segments
import Fluent.Resource.Parse

namespace Fluent

open Grammar

/-! ## Taking entries apart -/

/-- The items that an entry is made of: the comment that was attached to it, and the entry without
it. -/
def Entry.parts : Entry → List Entry
  | .message m => (m.comment.map Entry.comment).toList ++ [.message { m with comment := none }]
  | .term t => (t.comment.map Entry.comment).toList ++ [.term { t with comment := none }]
  | e => [e]

/-- No comment is attached to an entry as it is read. -/
theorem entry_parts {deep : Nested} {c stop : Cursor} {found : Entry}
    (h : entry deep c = .ok (found, stop)) : found.parts = [found] := by
  rcases entry_cases h with ⟨text, rfl, -⟩ | ⟨t, rfl, -, ht⟩ | ⟨m, rfl, hm⟩
  · rfl
  · obtain ⟨-, -, -, -, -, -, -, hnone⟩ := term_cases ht
    simp [Entry.parts, ← hnone]
  · obtain ⟨-, -, -, -, -, -, hnone⟩ := message_cases hm
    simp [Entry.parts, ← hnone]

/-- An entry that is its own part has no comment. -/
theorem Entry.comment_eq_none_of_parts {e : Entry} (h : e.parts = [e]) :
    (∀ m, e = .message m → { m with comment := none } = m) ∧
      ∀ t, e = .term t → { t with comment := none } = t := by
  constructor
  · rintro m rfl
    cases hc : m.comment with
    | none => rw [← hc]
    | some c => simp [Entry.parts, hc] at h
  · rintro t rfl
    cases hc : t.comment with
    | none => rw [← hc]
    | some c => simp [Entry.parts, hc] at h

/-- The items of a segmented text are entries without comments, and junk. -/
theorem Segmented.parts {deep : Nested} {size : Nat} {before rest : List Char} {list : List Item}
    (h : Segmented deep size before rest list) :
    ∀ item ∈ list, item.entry.parts = [item.entry] := by
  induction h with
  | blank => simp
  | entry _ hread _ _ ih =>
    rintro item (_ | ⟨_, hitem⟩)
    · exact entry_parts hread
    · exact ih item hitem
  | junk _ _ _ _ ih =>
    rintro item (_ | ⟨_, hitem⟩)
    · rfl
    · exact ih item hitem

namespace Attaching

/-- The items that were met. -/
def parts (a : Attaching) : List Entry :=
  a.flush.reverse.flatMap Entry.parts

/-- The parts of what is attached so far are those of its entries and then the waiting comment. -/
theorem parts_flush {a : Attaching} :
    a.parts = a.entries.reverse.flatMap Entry.parts ++
      (a.pending.map fun waiting => Entry.comment waiting.comment).toList := by
  unfold parts flush
  cases a.pending with
  | none => simp
  | some waiting => simp [Entry.parts]

/-- A comment that is taken belonged to the items met. -/
theorem parts_of_adjacent {a : Attaching} {start : Nat} {comment : Comment}
    (h : a.adjacent start = some comment) :
    a.parts = (a.settled start).reverse.flatMap Entry.parts ++ [.comment comment] := by
  have hs : a.settled start = a.entries := by simp [settled, h]
  rw [hs, parts_flush]
  unfold adjacent at h
  split at h
  · rename_i waiting hw
    split at h
    · obtain rfl := Option.some.inj h
      simp [hw]
    · cases h
  · cases h

/-- Where no comment is taken, the one that waited stands alone. -/
theorem parts_of_not_adjacent {a : Attaching} {start : Nat} (h : a.adjacent start = none) :
    a.parts = (a.settled start).reverse.flatMap Entry.parts := by
  simp [settled, h, parts]

/-- Adding an item adds it to those that were met, and no other. -/
theorem parts_push (a : Attaching) {item : Item} (h : item.entry.parts = [item.entry]) :
    (a.push item).parts = a.parts ++ [item.entry] := by
  obtain ⟨hmessage, hterm⟩ := Entry.comment_eq_none_of_parts h
  rw [parts_flush, push]
  cases he : item.entry with
  | message m =>
    have hm : m.comment = none := by rw [← hmessage m he]
    cases ha : a.adjacent item.start with
    | none => rw [parts_of_not_adjacent ha]; simp [Entry.parts, ← hm]
    | some comment => rw [parts_of_adjacent ha]; simp [Entry.parts, ← hm]
  | term t =>
    have ht : t.comment = none := by rw [← hterm t he]
    cases ha : a.adjacent item.start with
    | none => rw [parts_of_not_adjacent ha]; simp [Entry.parts, ← ht]
    | some comment => rw [parts_of_adjacent ha]; simp [Entry.parts, ← ht]
  | comment comment =>
    dsimp only
    split
    · simp [parts]
    · simp [parts, Entry.parts]
  | junk junk => simp [parts, Entry.parts]

end Attaching

/-- Attaching comments loses no item, adds none, and keeps their order. -/
theorem attachComments_parts {list : List Item}
    (h : ∀ item ∈ list, item.entry.parts = [item.entry]) :
    (attachComments list).flatMap Entry.parts = list.map Item.entry := by
  -- the induction is on what is still to be added, with any entries made so far
  have hrun : ∀ (a : Attaching),
      (list.foldl Attaching.push a).parts = a.parts ++ list.map Item.entry := by
    induction list with
    | nil => simp
    | cons item rest ih =>
      intro a
      rw [List.foldl_cons, ih (fun x hx => h x (List.mem_cons_of_mem _ hx)),
        a.parts_push (h item List.mem_cons_self)]
      simp
  exact hrun ⟨[], none⟩

/-! ## Junk -/

/-- An entry that is junk. -/
def Entry.junk? : Entry → Option Junk
  | .junk found => some found
  | _ => none

/-- The junk of an entry is found exactly when the entry is that junk. -/
theorem Entry.junk?_eq_some_iff {e : Entry} {junk : Junk} :
    e.junk? = some junk ↔ e = .junk junk := by
  cases e <;> simp [junk?]

/-- The junk of a resource is that of its entries, in order. -/
theorem junk_eq (entries : List Entry) :
    Resource.junk ⟨entries⟩ = entries.filterMap Entry.junk? := by
  rw [Resource.junk]
  rfl

/-- Attached comments are no junk. -/
theorem Entry.filterMap_parts (e : Entry) : e.parts.filterMap Entry.junk? = e.junk?.toList := by
  cases e with
  | message m => cases hc : m.comment <;> simp [Entry.parts, hc, List.filterMap_cons, Entry.junk?]
  | term t => cases hc : t.comment <;> simp [Entry.parts, hc, List.filterMap_cons, Entry.junk?]
  | comment _ => rfl
  | junk _ => rfl

/-- The junk among entries is the junk among their parts. -/
theorem filterMap_junk_parts (entries : List Entry) :
    (entries.flatMap Entry.parts).filterMap Entry.junk? = entries.filterMap Entry.junk? := by
  induction entries with
  | nil => rfl
  | cons e rest ih =>
    rw [List.flatMap_cons, List.filterMap_append, ih, e.filterMap_parts, List.filterMap_cons]
    cases e.junk? with
    | none => rfl
    | some _ => rfl

end Fluent
