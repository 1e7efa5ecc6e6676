/-
# Attached comments, item by item

Which comment belongs to which entry, and where empty lines are printed, is decided between each two
neighbouring items.

* `weave_append`, `countP_weave` : lists of items one behind the other, and the junk in them;
* `attachComments_eq_weave` : a comment is attached if it ends where a message or a term starts;
* `printEntries_weave` : the canonical text of a resource, printed item by item.
-/
import Fluent.Proofs.Resource.Parts
import Fluent.Resource.Print

namespace Fluent

/-! ## Between two items -/

/-- The entry that a comment of the first level and the message or term below it make. -/
def merged? : Entry → Entry → Option Entry
  | .comment found, .message m =>
    if found.level = .comment then some (.message { m with comment := some found }) else none
  | .comment found, .term t =>
    if found.level = .comment then some (.term { t with comment := some found }) else none
  | _, _ => none

/-- The entry that two items make, if the second one starts where the first one ends. -/
def joined? (a b : Item) : Option Entry :=
  if a.stop = b.start then merged? a.entry b.entry else none

/-- The two items make one entry. -/
def joins (a b : Item) : Bool :=
  (joined? a b).isSome

/-- The entries that items make. -/
def weave : List Item → List Entry
  | [] => []
  | [a] => [a.entry]
  | a :: b :: rest =>
    match joined? a b with
    | some e => e :: weave rest
    | none => a.entry :: weave (b :: rest)

/-- The canonical text of items; `separate` says that what stands before them is to be separated
from them by an empty line. -/
def printItems (separate : Bool) : List Item → List Char
  | [] => []
  | a :: rest =>
    a.entry.print separate ++ printItems (!a.entry.isJunk && !rest.head?.any (joins a)) rest

/-- Only comments of the first level are attached. -/
theorem joined?_eq_none {a : Item} (h : ∀ found, a.entry = .comment found → found.level ≠ .comment)
    (b : Item) : joined? a b = none := by
  unfold joined? merged?
  split
  · split
    · rename_i found m ha _
      exact if_neg (h found ha)
    · rename_i found t ha _
      exact if_neg (h found ha)
    · rfl
  · rfl

/-- An item that joins nothing is kept on its own. -/
theorem weave_cons_of_none {a : Item} {rest : List Item} (h : ∀ b, joined? a b = none) :
    weave (a :: rest) = a.entry :: weave rest := by
  cases rest with
  | nil => rfl
  | cons b rest => rw [weave, h b]

/-- Lists of items are woven one behind the other if they are not joined where they meet. -/
theorem weave_append {first second : List Item}
    (h : ∀ a, first.getLast? = some a → ∀ b, second.head? = some b → joined? a b = none) :
    weave (first ++ second) = weave first ++ weave second := by
  fun_induction weave first with
  | case1 => rfl
  | case2 a =>
    cases second with
    | nil => rfl
    | cons b rest =>
      show weave (a :: b :: rest) = [a.entry] ++ weave (b :: rest)
      rw [weave, h a rfl b rfl]
      rfl
  | case3 a b rest e he ih =>
    rw [List.cons_append, List.cons_append, weave, he]
    exact congrArg (e :: ·) (ih fun x hx => h x (by simp [List.getLast?_cons, hx]))
  | case4 a b rest he ih =>
    rw [List.cons_append, List.cons_append, weave, he]
    exact congrArg (a.entry :: ·) (ih fun x hx => h x (by rw [List.getLast?_cons_cons, hx]))

/-! ## Junk among items -/

/-- Neither of two joined items is junk, nor is what they make. -/
theorem joined?_isJunk {a b : Item} {e : Entry} (h : joined? a b = some e) :
    a.entry.isJunk = false ∧ b.entry.isJunk = false ∧ e.isJunk = false := by
  unfold joined? at h
  split at h
  · unfold merged? at h
    split at h
    case h_1 ha hb | h_2 ha hb =>
      split at h
      · obtain rfl := Option.some.inj h
        rw [ha, hb]
        exact ⟨rfl, rfl, rfl⟩
      · cases h
    case h_3 => cases h
  · cases h

/-- Junk joins nothing, so what stands before it is woven apart. -/
theorem weave_append_junk (first rest : List Item) {a : Item} (ha : a.entry.isJunk = true) :
    weave (first ++ a :: rest) = weave first ++ a.entry :: weave rest := by
  have hleft : ∀ x y, x.entry.isJunk = true ∨ y.entry.isJunk = true → joined? x y = none := by
    intro x y hjunk
    cases hjoined : joined? x y with
    | none => rfl
    | some e =>
      obtain ⟨hx, hy, -⟩ := joined?_isJunk hjoined
      simp [hx, hy] at hjunk
  rw [weave_append, weave_cons_of_none fun y => hleft a y (.inl ha)]
  intro x _ y hy
  obtain rfl := Option.some.inj hy
  exact hleft x _ (.inr ha)

/-- Weaving neither makes junk nor hides any. -/
theorem countP_weave (list : List Item) :
    (weave list).countP Entry.isJunk = list.countP fun item => item.entry.isJunk := by
  fun_induction weave list with
  | case1 => rfl
  | case2 a => rfl
  | case3 a b rest e he ih =>
    obtain ⟨ha, hb, hmade⟩ := joined?_isJunk he
    rw [List.countP_cons, List.countP_cons, List.countP_cons, ih, ha, hb, hmade]
    rfl
  | case4 a b rest he ih => rw [List.countP_cons, List.countP_cons, ih]

/-! ## From items to entries -/

/-- An item that is no comment is added alone if no comment waits. -/
theorem push_alone {b : Item} (hparts : b.entry.parts = [b.entry])
    (hb : ∀ found, b.entry ≠ .comment found) (entries : List Entry) :
    Attaching.push ⟨entries, none⟩ b = ⟨b.entry :: entries, none⟩ := by
  obtain ⟨hmessage, hterm⟩ := Entry.comment_eq_none_of_parts hparts
  cases he : b.entry with
  | message m =>
    simp [Attaching.push, he, Attaching.adjacent, Attaching.settled, Attaching.flush, hmessage m he]
  | term t =>
    simp [Attaching.push, he, Attaching.adjacent, Attaching.settled, Attaching.flush, hterm t he]
  | comment found => exact absurd he (hb found)
  | junk junk => simp [Attaching.push, he, Attaching.flush]

/-- If one waits, it is added with it or behind it. -/
theorem push_waiting {a b : Item} (hparts : b.entry.parts = [b.entry])
    (hb : ∀ found, b.entry ≠ .comment found) {found : Comment} (ha : a.entry = .comment found)
    (hlevel : found.level = .comment) (entries : List Entry) :
    Attaching.push ⟨entries, some ⟨found, a.stop⟩⟩ b =
      match joined? a b with
      | some e => ⟨e :: entries, none⟩
      | none => ⟨b.entry :: .comment found :: entries, none⟩ := by
  obtain ⟨hmessage, hterm⟩ := Entry.comment_eq_none_of_parts hparts
  -- a comment is attached to what starts where it stops, and to nothing else
  by_cases hstop : a.stop = b.start
  · cases he : b.entry with
    | message m =>
      simp [Attaching.push, he, Attaching.adjacent, Attaching.settled, joined?, merged?, ha, hlevel,
        hstop]
    | term t =>
      simp [Attaching.push, he, Attaching.adjacent, Attaching.settled, joined?, merged?, ha, hlevel,
        hstop]
    | comment next => exact absurd he (hb next)
    | junk junk => simp [Attaching.push, he, Attaching.flush, joined?, merged?, ha]
  · cases he : b.entry with
    | message m =>
      simp [Attaching.push, he, Attaching.adjacent, Attaching.settled, Attaching.flush, joined?,
        hstop, hmessage m he]
    | term t =>
      simp [Attaching.push, he, Attaching.adjacent, Attaching.settled, Attaching.flush, joined?,
        hstop, hterm t he]
    | comment next => exact absurd he (hb next)
    | junk junk => simp [Attaching.push, he, Attaching.flush, joined?, merged?, ha]

/-- The entries behind those made so far, whether a comment waits or not. -/
theorem flush_foldl_push {list : List Item} (h : ∀ item ∈ list, item.entry.parts = [item.entry]) :
    (∀ entries, (list.foldl Attaching.push ⟨entries, none⟩).flush.reverse =
      entries.reverse ++ weave list) ∧
    ∀ entries (a : Item) found, a.entry = .comment found → found.level = .comment →
      (list.foldl Attaching.push ⟨entries, some ⟨found, a.stop⟩⟩).flush.reverse =
        entries.reverse ++ weave (a :: list) := by
  -- both statements at once: a comment that waits makes the first a case of the second
  induction list with
  | nil =>
    refine ⟨fun entries => by simp [Attaching.flush, weave], fun entries a found ha _ => ?_⟩
    simp [Attaching.flush, weave, ha]
  | cons b rest ih =>
    obtain ⟨hnone, hsome⟩ := ih fun item hitem => h item (List.mem_cons_of_mem _ hitem)
    by_cases hb : ∃ next, b.entry = .comment next
    · obtain ⟨next, hb⟩ := hb
      -- a comment is never attached to another one, so what waits is put down first
      have hrun : ∀ attaching : Attaching,
          (rest.foldl Attaching.push (attaching.push b)).flush.reverse =
            attaching.flush.reverse ++ weave (b :: rest) := by
        intro attaching
        by_cases hlevel : next.level = .comment
        · have hpush : attaching.push b = ⟨attaching.flush, some ⟨next, b.stop⟩⟩ := by
            simp [Attaching.push, hb, hlevel]
          rw [hpush]
          exact hsome _ b next hb hlevel
        · have hpush : attaching.push b = ⟨.comment next :: attaching.flush, none⟩ := by
            simp [Attaching.push, hb, hlevel]
          have halone : ∀ x, joined? b x = none := joined?_eq_none fun found hfound => by
            rw [hb] at hfound
            obtain rfl := Entry.comment.inj hfound
            exact hlevel
          rw [hpush, hnone, weave_cons_of_none halone, hb]
          simp
      refine ⟨fun entries => hrun _, fun entries a found ha _ => ?_⟩
      have hapart : joined? a b = none := by simp [joined?, merged?, ha, hb]
      rw [List.foldl_cons, hrun, weave, hapart, ha]
      simp [Attaching.flush]
    · have hb : ∀ next, b.entry ≠ .comment next := fun next hnext => hb ⟨next, hnext⟩
      have hparts := h b List.mem_cons_self
      have halone : ∀ x, joined? b x = none :=
        joined?_eq_none fun found hfound => absurd hfound (hb found)
      constructor
      · intro entries
        rw [List.foldl_cons, push_alone hparts hb, hnone, weave_cons_of_none halone]
        simp
      · intro entries a found ha hlevel
        rw [List.foldl_cons, push_waiting hparts hb ha hlevel, weave]
        cases joined? a b with
        | some e => simp [hnone]
        | none => simp [hnone, weave_cons_of_none halone, ha]

/-- **Attaching is decided between neighbours.** -/
theorem attachComments_eq_weave {list : List Item}
    (h : ∀ item ∈ list, item.entry.parts = [item.entry]) : attachComments list = weave list :=
  (flush_foldl_push h).1 []

/-! ## From items to their text -/

/-- What two items make is printed as they are, one directly behind the other. -/
theorem print_joined {a b : Item} {e : Entry} (hb : b.entry.parts = [b.entry])
    (h : joined? a b = some e) :
    (∀ separate, e.print separate = a.entry.print separate ++ b.entry.print false) ∧
      e.isJunk = false ∧ a.entry.isJunk = false ∧ b.entry.isJunk = false ∧
        ∀ x, joined? b x = none := by
  obtain ⟨hmessage, hterm⟩ := Entry.comment_eq_none_of_parts hb
  unfold joined? at h
  split at h
  · unfold merged? at h
    split at h
    · rename_i found m ha hm
      split at h
      · obtain rfl := Option.some.inj h
        -- an item has no comment of its own yet, so the one that is joined is all it prints
        have hnone : m.comment = none := by rw [← hmessage m hm]
        refine ⟨fun separate => ?_, rfl, by rw [ha]; rfl, by rw [hm]; rfl,
          joined?_eq_none (by simp [hm])⟩
        rw [ha, hm]
        simp [Entry.print, Message.print, printAttached, hnone]
      · cases h
    · rename_i found t ha ht
      split at h
      · obtain rfl := Option.some.inj h
        have hnone : t.comment = none := by rw [← hterm t ht]
        refine ⟨fun separate => ?_, rfl, by rw [ha]; rfl, by rw [ht]; rfl,
          joined?_eq_none (by simp [ht])⟩
        rw [ha, ht]
        simp [Entry.print, Term.print, printAttached, hnone]
      · cases h
    · cases h
  · cases h

/-- **The text of entries is the text of their items.** -/
theorem printEntries_weave {list : List Item} (h : ∀ item ∈ list, item.entry.parts = [item.entry])
    (separate : Bool) : printEntries separate (weave list) = printItems separate list := by
  fun_induction weave list generalizing separate with
  | case1 => rfl
  | case2 a => simp [printEntries, printItems]
  | case3 a b rest e he ih =>
    obtain ⟨hprint, hjunk, hfirst, hsecond, hnone⟩ :=
      print_joined (h b (List.mem_cons_of_mem _ List.mem_cons_self)) he
    -- the second of two joined items is no comment, so it is not joined with a third
    have hjoins : rest.head?.any (joins b) = false := by
      cases rest with
      | nil => rfl
      | cons x rest => simp [joins, hnone x]
    have hlist := ih fun x hx => h x (List.mem_cons_of_mem _ (List.mem_cons_of_mem _ hx))
    rw [printEntries, hprint, hjunk, hlist, printItems, printItems, hjoins, hfirst, hsecond]
    simp [joins, he]
  | case4 a b rest he ih =>
    have hlist := ih fun x hx => h x (List.mem_cons_of_mem _ hx)
    have hjoins : joins a b = false := by simp [joins, he]
    rw [printEntries, hlist]
    conv => rhs; rw [printItems]
    simp [hjoins]

end Fluent
