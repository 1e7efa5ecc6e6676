/-
# The first definition stays

Resources are added to a catalog one after the other.  Of the messages that share a name, and of the
terms that do, the first one stays, wherever it was defined; the others are counted as they are met.

* `Catalog.addEntries_fst` : what a list of entries puts into a catalog;
* `Catalog.skipped_add_size` : every definition is kept or counted;
* `Catalog.addAll_eq` : adding resources one by one is adding their concatenation;
* `Catalog.first_definition_stays` : what a catalog of any resources holds.
-/
import Mathlib.Algebra.GroupWithZero.Nat
import Fluent.Proofs.SortedMap.Order
import Fluent.Format.Catalog

namespace Fluent

/-! ## Values that stay -/

namespace SortedMap

variable {α : Type}

/-- A new key makes the list of entries longer by one. -/
theorem length_insertInto_of_lookup {key : String} {value : α} {entries : List (String × α)}
    (h : entries.lookup key = none) :
    (insertInto key value entries).length = entries.length + 1 := by
  fun_induction insertInto key value entries with
  | case1 | case2 => rfl
  | case3 =>
    rw [List.lookup_cons_self] at h
    cases h
  | case4 k v rest _ hne ih =>
    rw [lookup_cons, if_neg hne] at h
    rw [List.length_cons, List.length_cons, ih h]

/-- A value is put in, or its key is there already. -/
theorem size_insertFirst (m : SortedMap α) (key : String) (value : α) :
    (m.insertFirst key value).size + (m.contains key).toNat = m.size + 1 := by
  unfold insertFirst
  cases hkey : m.contains key with
  | true => rfl
  | false =>
    have hnone : m.entries.lookup key = none := by
      rwa [contains, Option.isSome_eq_false_iff, Option.isNone_iff_eq_none] at hkey
    exact length_insertInto_of_lookup hnone

/-- Puts in pairs one after the other, each unless its key is there already. -/
def insertAllFirst (pairs : List (String × α)) (m : SortedMap α) : SortedMap α :=
  pairs.foldl (fun m pair => m.insertFirst pair.1 pair.2) m

/-- What is there stays, and of what is put in the first one stays. -/
theorem find?_insertAllFirst (pairs : List (String × α)) (m : SortedMap α) (key : String) :
    (m.insertAllFirst pairs).find? key = (m.find? key).or (pairs.lookup key) := by
  induction pairs generalizing m with
  | nil => exact Option.or_none.symm
  | cons pair pairs ih =>
    rw [insertAllFirst, List.foldl_cons, ← insertAllFirst, ih, find?_insertFirst, Option.or_assoc,
      lookup_cons]
    by_cases h : key = pair.1
    · rw [if_pos h, if_pos h, Option.some_or]
    · rw [if_neg h, if_neg h, Option.none_or]

/-- A map stays ordered by its keys when pairs are inserted, none of them over an earlier one. -/
theorem ordered_insertAllFirst (pairs : List (String × α)) {m : SortedMap α} (h : m.Ordered) :
    (m.insertAllFirst pairs).Ordered := by
  induction pairs generalizing m with
  | nil => exact h
  | cons pair pairs ih => exact ih (ordered_insertFirst h pair.1 pair.2)

end SortedMap

/-- Under a name stands the first value that has it. -/
theorem lookup_map_name {α : Type} (name : α → String) (values : List α) (id : String) :
    (values.map fun a => (name a, a)).lookup id = values.find? fun a => name a == id := by
  induction values with
  | nil => rfl
  | cons a values ih =>
    rw [List.map_cons, SortedMap.lookup_cons, ih, List.find?_cons]
    by_cases h : id = name a
    · rw [if_pos h, h, beq_self_eq_true]
    · rw [if_neg h, beq_eq_false_iff_ne.2 (Ne.symm h)]

/-! ## Entries -/

namespace Catalog

/-- The messages among some entries, under their names. -/
def namedMessages (entries : List Entry) : List (String × Message) :=
  (Resource.mk entries).messages.map fun m => (m.id.name, m)

/-- The terms among some entries, under their names. -/
def namedTerms (entries : List Entry) : List (String × Term) :=
  (Resource.mk entries).terms.map fun t => (t.id.name, t)

/-- Adding entries puts the messages and the terms among them into maps of their own. -/
theorem addEntries_fst (catalog : Catalog) (entries : List Entry) :
    (catalog.addEntries entries).1 = ⟨catalog.messages.insertAllFirst (namedMessages entries),
      catalog.terms.insertAllFirst (namedTerms entries)⟩ := by
  induction entries generalizing catalog with
  | nil => rfl
  | cons e entries ih =>
    show ((catalog.addEntry e).addEntries entries).1 = _
    rw [ih]
    cases e <;> rfl

/-- The values kept of a list are those kept of its first element and those kept of the rest. -/
theorem length_filterMap_cons {α β : Type} (f : α → Option β) (a : α) (l : List α) :
    ((a :: l).filterMap f).length = ([a].filterMap f).length + (l.filterMap f).length := by
  rw [← List.length_append, ← List.filterMap_append, List.singleton_append]

/-- One entry is put in, or its name is taken, or it defines nothing. -/
theorem isDuplicate_add_size (catalog : Catalog) (e : Entry) :
    (catalog.isDuplicate e).toNat + (catalog.addEntry e).size =
      catalog.size + ((Resource.mk [e]).messages.length + (Resource.mk [e]).terms.length) := by
  cases e with
  | message m =>
    have h := catalog.messages.size_insertFirst m.id.name m
    show (catalog.messages.contains m.id.name).toNat +
      ((catalog.messages.insertFirst m.id.name m).size + catalog.terms.size) =
        catalog.messages.size + catalog.terms.size + 1
    omega
  | term t =>
    have h := catalog.terms.size_insertFirst t.id.name t
    show (catalog.terms.contains t.id.name).toNat +
      (catalog.messages.size + (catalog.terms.insertFirst t.id.name t).size) =
        catalog.messages.size + catalog.terms.size + 1
    omega
  | comment _ | junk _ => exact Nat.zero_add _

/-- **Every message and every term is kept or counted** when entries are added. -/
theorem skipped_add_size (catalog : Catalog) (entries : List Entry) :
    (catalog.addEntries entries).2 + (catalog.addEntries entries).1.size =
      catalog.size + ((Resource.mk entries).messages.length +
        (Resource.mk entries).terms.length) := by
  induction entries generalizing catalog with
  | nil => exact Nat.zero_add _
  | cons e entries ih =>
    have hrest := ih (catalog.addEntry e)
    have hfirst := catalog.isDuplicate_add_size e
    have hmessages : (Resource.mk (e :: entries)).messages.length =
        (Resource.mk [e]).messages.length + (Resource.mk entries).messages.length :=
      length_filterMap_cons _ e entries
    have hterms : (Resource.mk (e :: entries)).terms.length =
        (Resource.mk [e]).terms.length + (Resource.mk entries).terms.length :=
      length_filterMap_cons _ e entries
    show ((catalog.addEntry e).addEntries entries).2 + (catalog.isDuplicate e).toNat +
      ((catalog.addEntry e).addEntries entries).1.size = _
    omega

/-- Entries may be added in two parts. -/
theorem addEntries_append (catalog : Catalog) (first rest : List Entry) :
    catalog.addEntries (first ++ rest) =
      (((catalog.addEntries first).1.addEntries rest).1,
        (catalog.addEntries first).2 + ((catalog.addEntries first).1.addEntries rest).2) := by
  induction first generalizing catalog with
  | nil => exact Prod.ext rfl (Nat.zero_add _).symm
  | cons e first ih =>
    show (((catalog.addEntry e).addEntries (first ++ rest)).1,
      ((catalog.addEntry e).addEntries (first ++ rest)).2 + (catalog.isDuplicate e).toNat) = _
    rw [ih]
    exact Prod.ext rfl (Nat.add_right_comm _ _ _)

/-! ## Resources -/

/-- Adds resources one after the other and answers how many definitions were skipped in each. -/
def addAll (catalog : Catalog) : List Resource → Catalog × List Nat
  | [] => (catalog, [])
  | resource :: resources =>
    let (next, skipped) := catalog.add resource
    let (last, counts) := next.addAll resources
    (last, skipped :: counts)

/-- The resource with the entries of some resources in a row. -/
def concatenation (resources : List Resource) : Resource :=
  ⟨resources.flatMap (·.entries)⟩

/-- **Adding resources one by one is adding their concatenation.** -/
theorem addAll_eq (catalog : Catalog) (resources : List Resource) :
    catalog.add (concatenation resources) =
      ((catalog.addAll resources).1, (catalog.addAll resources).2.sum) := by
  induction resources generalizing catalog with
  | nil => rfl
  | cons resource resources ih =>
    rw [add, concatenation, List.flatMap_cons, addEntries_append]
    have hrest := ih (catalog.add resource).1
    rw [add, concatenation] at hrest
    rw [show (catalog.addEntries resource.entries).1 = (catalog.add resource).1 from rfl, hrest]
    rfl

/-- **The first definition of each name stays.**  When any resources are added to an empty catalog
one after the other, the message and the term of a name are the first ones with that name in all
the entries in a row, each apart from the other and from comments and junk; the names of messages
are listed once each, in order; every message and term is kept or counted as skipped; and adding
all entries at once comes to the same catalog and to the same number. -/
theorem first_definition_stays (resources : List Resource) :
    let run := Catalog.empty.addAll resources
    let whole := concatenation resources
    (∀ id, run.1.message? id = whole.messages.find? fun m => m.id.name == id) ∧
      (∀ id, run.1.term? id = whole.terms.find? fun t => t.id.name == id) ∧
      run.1.messageIds.Pairwise (· < ·) ∧
      (∀ id, id ∈ run.1.messageIds ↔ ∃ m ∈ whole.messages, m.id.name = id) ∧
      run.2.sum + run.1.size = whole.messages.length + whole.terms.length ∧
      Catalog.empty.add whole = (run.1, run.2.sum) := by
  intro run whole
  have hwhole : Catalog.empty.add whole = (run.1, run.2.sum) := addAll_eq Catalog.empty resources
  have hrun : run.1 = ⟨SortedMap.empty.insertAllFirst (namedMessages whole.entries),
      SortedMap.empty.insertAllFirst (namedTerms whole.entries)⟩ := by
    rw [← congrArg Prod.fst hwhole]
    exact addEntries_fst Catalog.empty whole.entries
  have hmessage : ∀ id, run.1.message? id = whole.messages.find? fun m => m.id.name == id := by
    intro id
    rw [hrun, message?, SortedMap.find?_insertAllFirst, ← lookup_map_name]
    rfl
  refine ⟨hmessage, fun id => ?_, ?_, fun id => ?_, ?_, hwhole⟩
  · rw [hrun, term?, SortedMap.find?_insertAllFirst, ← lookup_map_name]
    rfl
  · rw [hrun]
    exact (SortedMap.ordered_insertAllFirst _ SortedMap.ordered_empty).keys
  · rw [messageIds, SortedMap.mem_keys_iff, ← message?, hmessage, List.find?_isSome]
    simp only [beq_iff_eq]
  · have hsize := skipped_add_size Catalog.empty whole.entries
    rw [← add, hwhole] at hsize
    exact hsize.trans (Nat.zero_add _)

end Catalog

end Fluent
