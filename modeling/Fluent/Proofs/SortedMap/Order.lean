/-
# Maps in the order of their keys

Every insertion keeps the keys in order, so a map that was made by insertions is told by what is
found in it: no other list of entries gives the same answers.

* `ordered_insert`, `ordered_insertFirst` : what one insertion keeps, and `ordered_ofList` : what
  a whole run of them keeps;
* `Ordered.find?_eq_some_iff` : each entry is found, and nothing else;
* `Ordered.forall₂_iff` : two maps agree place by place if and only if they agree key by key.
-/
import Mathlib.Data.List.Forall2
import Mathlib.Data.List.Induction
import Mathlib.Data.String.Basic
import Fluent.SortedMap

namespace Fluent.SortedMap

variable {α β : Type}

/-- The keys increase from each entry to the next ones. -/
def Ordered (m : SortedMap α) : Prop :=
  m.entries.Pairwise fun a b => a.1 < b.1

/-- The keys of an ordered map increase. -/
theorem Ordered.keys {m : SortedMap α} (h : m.Ordered) : m.keys.Pairwise (· < ·) :=
  List.pairwise_map.2 h

/-! ## What is found -/

/-- Nothing is found under a key that comes before all others. -/
theorem lookup_eq_none_of_lt {key : String} {entries : List (String × α)}
    (h : ∀ entry ∈ entries, key < entry.1) : entries.lookup key = none := by
  rw [List.lookup_eq_none_iff]
  intro entry hentry
  exact bne_iff_ne.2 (h entry hentry).ne

/-- The keys of a map are those under which something is found. -/
theorem mem_keys_iff {m : SortedMap α} {key : String} :
    key ∈ m.keys ↔ (m.find? key).isSome = true := by
  rw [find?, List.lookup_isSome_iff, keys, List.mem_map]
  constructor
  · rintro ⟨entry, hentry, rfl⟩
    exact ⟨entry, hentry, beq_self_eq_true _⟩
  · rintro ⟨entry, hentry, heq⟩
    exact ⟨entry, hentry, (eq_of_beq heq).symm⟩

/-- An insertion adds its key and no other. -/
theorem mem_keys_insert {m : SortedMap α} {key other : String} {value : α} :
    other ∈ (m.insert key value).keys ↔ other = key ∨ other ∈ m.keys := by
  rw [mem_keys_iff, mem_keys_iff, find?_insert]
  split
  · rename_i h
    exact iff_of_true rfl (.inl h)
  · rename_i h
    exact (or_iff_right h).symm

/-- In a map in order each entry is found, and nothing else. -/
theorem Ordered.find?_eq_some_iff {m : SortedMap α} (h : m.Ordered) {key : String} {value : α} :
    m.find? key = some value ↔ (key, value) ∈ m.entries := by
  obtain ⟨entries⟩ := m
  show entries.lookup key = some value ↔ (key, value) ∈ entries
  replace h : entries.Pairwise fun a b => a.1 < b.1 := h
  induction entries with
  | nil => simp
  | cons entry rest ih =>
    obtain ⟨k, v⟩ := entry
    obtain ⟨hfirst, hrest⟩ := List.pairwise_cons.1 h
    rw [lookup_cons, List.mem_cons, Prod.mk.injEq]
    by_cases hk : key = k
    · -- the other keys come behind this one
      have hnot : (key, value) ∉ rest := fun hmem => (hfirst _ hmem).ne hk.symm
      rw [if_pos hk, Option.some.injEq, or_iff_left hnot, and_iff_right hk, eq_comm]
    · rw [if_neg hk]
      exact (ih hrest).trans (or_iff_right fun heq => hk heq.1).symm

/-! ## Insertions -/

/-- The empty map is ordered. -/
theorem ordered_empty : (empty : SortedMap α).Ordered :=
  List.Pairwise.nil

/-- An insertion keeps the keys in order. -/
theorem ordered_insert {m : SortedMap α} (h : m.Ordered) (key : String) (value : α) :
    (m.insert key value).Ordered := by
  obtain ⟨entries⟩ := m
  show (insertInto key value entries).Pairwise fun a b => a.1 < b.1
  replace h : entries.Pairwise fun a b => a.1 < b.1 := h
  fun_induction insertInto key value entries with
  | case1 => exact List.pairwise_singleton _ _
  | case2 k v rest hlt =>
    -- the new key comes before the first one, and so before all
    have hfirst := (List.pairwise_cons.1 h).1
    refine List.pairwise_cons.2 ⟨fun entry hentry => ?_, h⟩
    rcases List.mem_cons.1 hentry with rfl | hentry
    · exact hlt
    · exact hlt.trans (hfirst entry hentry)
  | case3 v rest => exact List.pairwise_cons.2 (List.pairwise_cons.1 h)
  | case4 k v rest hlt hne ih =>
    obtain ⟨hfirst, hrest⟩ := List.pairwise_cons.1 h
    have hk : k < key := lt_of_le_of_ne (not_lt.1 hlt) (Ne.symm hne)
    refine List.pairwise_cons.2 ⟨fun entry hentry => ?_, ih hrest⟩
    -- the keys behind the first one are the new key and those that were there
    have hkey : entry.1 ∈ (insert key value ⟨rest⟩).keys := List.mem_map_of_mem hentry
    rcases mem_keys_insert.1 hkey with heq | hold
    · exact heq ▸ hk
    · obtain ⟨old, hmem, heq⟩ := List.mem_map.1 hold
      exact heq ▸ hfirst old hmem

/-- A map stays ordered when a pair is inserted, unless its key is taken. -/
theorem ordered_insertFirst {m : SortedMap α} (h : m.Ordered) (key : String) (value : α) :
    (m.insertFirst key value).Ordered := by
  unfold insertFirst
  split
  · exact h
  · exact ordered_insert h key value

/-- A map that was made by insertions is in order. -/
theorem ordered_ofList (pairs : List (String × α)) : (ofList pairs).Ordered := by
  induction pairs using List.reverseRecOn with
  | nil => exact ordered_empty
  | append_singleton pairs pair ih =>
    rw [ofList, List.foldl_concat]
    exact ordered_insert ih pair.1 pair.2

/-! ## Equal maps -/

/-- Entries in order that agree with others key by key agree with them place by place. -/
theorem forall₂_of_lookup {R : α → β → Prop} {l : List (String × α)} {l' : List (String × β)}
    (hl : l.Pairwise fun a b => a.1 < b.1) (hl' : l'.Pairwise fun a b => a.1 < b.1)
    (h : ∀ key, Option.Rel R (l.lookup key) (l'.lookup key)) :
    List.Forall₂ (fun a b => a.1 = b.1 ∧ R a.2 b.2) l l' := by
  induction l generalizing l' with
  | nil =>
    cases l' with
    | nil => exact .nil
    | cons b rest' =>
      have hb := h b.1
      rw [show b = (b.1, b.2) from rfl, List.lookup_cons_self] at hb
      cases hb
  | cons a rest ih =>
    obtain ⟨k, v⟩ := a
    have hv := h k
    rw [List.lookup_cons_self] at hv
    cases l' with
    | nil => cases hv
    | cons b rest' =>
      obtain ⟨k', v'⟩ := b
      obtain ⟨hfirst, hrest⟩ := List.pairwise_cons.1 hl
      obtain ⟨hfirst', hrest'⟩ := List.pairwise_cons.1 hl'
      -- the smaller of two first keys would be found on one side only
      rcases lt_trichotomy k k' with hlt | rfl | hgt
      · rw [lookup_eq_none_of_lt
          (List.forall_mem_cons.2 ⟨hlt, fun e he => hlt.trans (hfirst' e he)⟩)] at hv
        cases hv
      · rw [List.lookup_cons_self] at hv
        cases hv with
        | some hv =>
          refine .cons ⟨rfl, hv⟩ (ih hrest hrest' fun key => ?_)
          by_cases hkey : key = k
          · rw [hkey, lookup_eq_none_of_lt hfirst, lookup_eq_none_of_lt hfirst']
            exact .none
          · have hother := h key
            rwa [lookup_cons, lookup_cons, if_neg hkey, if_neg hkey] at hother
      · have hb := h k'
        rw [List.lookup_cons_self, lookup_eq_none_of_lt
          (List.forall_mem_cons.2 ⟨hgt, fun e he => hgt.trans (hfirst e he)⟩)] at hb
        cases hb

/-- Entries that agree place by place agree key by key. -/
theorem rel_lookup_of_forall₂ {R : α → β → Prop} {l : List (String × α)} {l' : List (String × β)}
    (h : List.Forall₂ (fun a b => a.1 = b.1 ∧ R a.2 b.2) l l') (key : String) :
    Option.Rel R (l.lookup key) (l'.lookup key) := by
  induction h with
  | nil => exact .none
  | @cons a b _ _ hab _ ih =>
    rw [show a = (a.1, a.2) from rfl, show b = (b.1, b.2) from rfl, lookup_cons, lookup_cons,
      ← hab.1]
    split
    · exact .some hab.2
    · exact ih

/-- Two maps in order have related values at each place, under the same keys, if and only if they
have related values under each key. -/
theorem Ordered.forall₂_iff {R : α → β → Prop} {m : SortedMap α} {n : SortedMap β}
    (hm : m.Ordered) (hn : n.Ordered) :
    List.Forall₂ (fun a b => a.1 = b.1 ∧ R a.2 b.2) m.entries n.entries ↔
      ∀ key, Option.Rel R (m.find? key) (n.find? key) :=
  ⟨rel_lookup_of_forall₂, forall₂_of_lookup hm hn⟩

/-- Two maps in order in which the same is found are equal. -/
theorem Ordered.eq_iff {m n : SortedMap α} (hm : m.Ordered) (hn : n.Ordered) :
    m = n ↔ ∀ key, m.find? key = n.find? key := by
  constructor
  · rintro rfl key
    rfl
  · intro h
    have hrel : ∀ key, Option.Rel (· = ·) (m.find? key) (n.find? key) := by
      intro key
      rw [h key]
      cases n.find? key with
      | none => exact .none
      | some value => exact .some rfl
    have hentries := (hm.forall₂_iff hn).2 hrel
    obtain ⟨l⟩ := m
    obtain ⟨l'⟩ := n
    congr 1
    exact List.forall₂_eq_eq_eq ▸ hentries.imp fun _ _ hab => Prod.ext hab.1 hab.2

end Fluent.SortedMap
