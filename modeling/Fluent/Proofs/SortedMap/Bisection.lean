/-
# Searching by halves

In entries whose keys are in order a key can be looked for by halves: the entry in the middle tells
on which side of it the key stands, if anywhere.  The same search tells where a new key has to be
put.  Looking up and inserting by halves therefore do what they do entry by entry, as long as the
keys are in order; and insertions by halves keep them so.

* `bisect_tells` : the search tells where the key stands or belongs;
* `find?Bisecting_eq`, `insertBisecting_eq` : looking up and inserting by halves;
* `foldl_insertBisecting` : a whole run of insertions by halves.
-/
import Fluent.Proofs.SortedMap.Order

namespace Fluent.SortedMap

variable {α : Type}

/-- Where a key stands, or the place that it would have to be put at. -/
inductive Position
  | found (index : Nat)
  | missing (index : Nat)
deriving DecidableEq

/-- Looks for a key by halves among the entries from `low` up to `high`. -/
def bisect (key : String) (entries : List (String × α)) (low high : Nat)
    (hhigh : high ≤ entries.length) : Position :=
  if _h : low < high then
    have _hmiddle : (low + high) / 2 < entries.length := by omega
    if entries[(low + high) / 2].1 < key then
      bisect key entries ((low + high) / 2 + 1) high hhigh
    else if entries[(low + high) / 2].1 = key then
      .found ((low + high) / 2)
    else
      bisect key entries low ((low + high) / 2) (by omega)
  else
    .missing low
termination_by high - low

/-- Looks for a key by halves. -/
def position (key : String) (m : SortedMap α) : Position :=
  bisect key m.entries 0 m.entries.length (Nat.le_refl _)

/-- The value under a key, looked for by halves. -/
def find?Bisecting (key : String) (m : SortedMap α) : Option α :=
  match m.position key with
  | .found index => (m.entries[index]?).map (·.2)
  | .missing _ => none

/-- Puts a value under a key: where the key stands, or at the place that it belongs to. -/
def insertBisecting (key : String) (value : α) (m : SortedMap α) : SortedMap α :=
  match m.position key with
  | .found index => ⟨m.entries.set index (key, value)⟩
  | .missing index => ⟨m.entries.take index ++ (key, value) :: m.entries.drop index⟩

/-! ## The search -/

/-- The place is that of the key: the keys in front of it are smaller, and either it holds the key
or all keys from there on are greater. -/
def Position.Tells (key : String) (entries : List (String × α)) : Position → Prop
  | .found index => ∃ front value back, entries = front ++ (key, value) :: back ∧
      index = front.length ∧ ∀ entry ∈ front, entry.1 < key
  | .missing index => ∃ front back, entries = front ++ back ∧ index = front.length ∧
      (∀ entry ∈ front, entry.1 < key) ∧ ∀ entry ∈ back, key < entry.1

/-- The search tells where the key stands or belongs, if the keys outside of where it looks are
smaller in front and greater behind. -/
theorem bisect_tells {key : String} {entries : List (String × α)} {low high : Nat}
    (h : entries.Pairwise fun a b => a.1 < b.1) (hhigh : high ≤ entries.length) (hle : low ≤ high)
    (hfront : ∀ i, ∀ hi : i < entries.length, i < low → entries[i].1 < key)
    (hback : ∀ i, ∀ hi : i < entries.length, high ≤ i → key < entries[i].1) :
    (bisect key entries low high hhigh).Tells key entries := by
  have hincrease := List.pairwise_iff_getElem.1 h
  fun_induction bisect key entries low high hhigh with
  | case1 low high hhigh hlt hmiddle hless ih =>
    -- all up to the middle is too small
    refine ih (by omega) (fun i hi hlow => ?_) hback
    rcases Nat.lt_or_ge i ((low + high) / 2) with hi' | hi'
    · exact (hincrease i _ hi hmiddle hi').trans hless
    · obtain rfl : i = (low + high) / 2 := by omega
      exact hless
  | case2 low high hhigh hlt hmiddle hless hkey =>
    refine ⟨entries.take ((low + high) / 2), entries[(low + high) / 2].2,
      entries.drop ((low + high) / 2 + 1), ?_, ?_, fun entry hentry => ?_⟩
    · rw [← hkey, Prod.mk.eta, ← List.drop_eq_getElem_cons hmiddle, List.take_append_drop]
    · rw [List.length_take, Nat.min_eq_left hmiddle.le]
    · obtain ⟨i, hi, rfl⟩ := List.mem_take_iff_getElem.1 hentry
      exact (hincrease i _ (by omega) hmiddle (by omega)).trans_eq hkey
  | case3 low high hhigh hlt hmiddle hless hne ih =>
    -- all from the middle on is too great
    have hgreater : key < entries[(low + high) / 2].1 :=
      lt_of_le_of_ne (not_lt.1 hless) (Ne.symm hne)
    refine ih (by omega) hfront (fun i hi hge => ?_)
    rcases Nat.lt_or_ge ((low + high) / 2) i with hi' | hi'
    · exact hgreater.trans (hincrease _ i hmiddle hi hi')
    · obtain rfl : i = (low + high) / 2 := by omega
      exact hgreater
  | case4 low high hhigh hge =>
    refine ⟨entries.take low, entries.drop low, (List.take_append_drop _ _).symm, ?_,
      fun entry hentry => ?_, fun entry hentry => ?_⟩
    · rw [List.length_take, Nat.min_eq_left (by omega)]
    · obtain ⟨i, hi, rfl⟩ := List.mem_take_iff_getElem.1 hentry
      exact hfront i (by omega) (by omega)
    · obtain ⟨i, hi, rfl⟩ := List.mem_drop_iff_getElem.1 hentry
      exact hback (low + i) (by omega) (by omega)

/-- **In a map in order the search tells where a key stands or belongs.** -/
theorem Ordered.position_tells {m : SortedMap α} (h : m.Ordered) (key : String) :
    (m.position key).Tells key m.entries :=
  bisect_tells h (Nat.le_refl _) (Nat.zero_le _) (fun i _ hi => absurd hi (Nat.not_lt_zero i))
    fun _ hi hle => absurd hi (Nat.not_lt.2 hle)

/-! ## Looking up and inserting -/

/-- Smaller keys in front are passed when a value is put in. -/
theorem insertInto_append {key : String} {value : α} {front rest : List (String × α)}
    (h : ∀ entry ∈ front, entry.1 < key) :
    insertInto key value (front ++ rest) = front ++ insertInto key value rest := by
  induction front with
  | nil => rfl
  | cons entry front ih =>
    obtain ⟨k, v⟩ := entry
    obtain ⟨hk, hfront⟩ := List.forall_mem_cons.1 h
    rw [List.cons_append, insertInto, if_neg hk.not_gt, if_neg hk.ne', ih hfront]
    rfl

/-- In front of greater keys a value is put first. -/
theorem insertInto_of_lt {key : String} {value : α} {entries : List (String × α)}
    (h : ∀ entry ∈ entries, key < entry.1) :
    insertInto key value entries = (key, value) :: entries := by
  cases entries with
  | nil => rfl
  | cons entry rest => exact if_pos (h entry List.mem_cons_self)

/-- Smaller keys in front are passed when a key is looked up. -/
theorem lookup_append_of_lt {key : String} {front rest : List (String × α)}
    (h : ∀ entry ∈ front, entry.1 < key) : (front ++ rest).lookup key = rest.lookup key := by
  have hnone : front.lookup key = none :=
    List.lookup_eq_none_iff.2 fun entry hentry => bne_iff_ne.2 (h entry hentry).ne'
  rw [List.lookup_append, hnone, Option.none_or]

/-- In a map in order a value is found by halves just where it is found at all. -/
theorem Ordered.find?Bisecting_eq {m : SortedMap α} (h : m.Ordered) (key : String) :
    m.find?Bisecting key = m.find? key := by
  have htells := h.position_tells key
  unfold find?Bisecting find?
  cases hp : m.position key with
  | found index =>
    rw [hp] at htells
    obtain ⟨front, value, back, hentries, rfl, hfront⟩ := htells
    rw [hentries, lookup_append_of_lt hfront, List.lookup_cons_self]
    simp
  | missing index =>
    rw [hp] at htells
    obtain ⟨front, back, hentries, -, hfront, hback⟩ := htells
    rw [hentries, lookup_append_of_lt hfront, lookup_eq_none_of_lt hback]

/-- In a map in order an insertion by halves is an insertion. -/
theorem Ordered.insertBisecting_eq {m : SortedMap α} (h : m.Ordered) (key : String) (value : α) :
    m.insertBisecting key value = m.insert key value := by
  have htells := h.position_tells key
  unfold insertBisecting insert
  cases hp : m.position key with
  | found index =>
    rw [hp] at htells
    obtain ⟨front, old, back, hentries, rfl, hfront⟩ := htells
    rw [hentries, insertInto_append hfront, insertInto, if_neg (lt_irrefl key), if_pos rfl]
    simp
  | missing index =>
    rw [hp] at htells
    obtain ⟨front, back, hentries, rfl, hfront, hback⟩ := htells
    rw [hentries, insertInto_append hfront, insertInto_of_lt hback]
    simp

/-- A map made by insertions by halves is the one made by insertions. -/
theorem foldl_insertBisecting (pairs : List (String × α)) :
    pairs.foldl (fun m pair => m.insertBisecting pair.1 pair.2) empty = ofList pairs := by
  induction pairs using List.reverseRecOn with
  | nil => rfl
  | append_singleton pairs pair ih =>
    rw [List.foldl_concat, ih, (ordered_ofList pairs).insertBisecting_eq, ofList, ofList,
      List.foldl_concat]

end Fluent.SortedMap
