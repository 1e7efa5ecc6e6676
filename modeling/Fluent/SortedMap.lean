/-
# Sorted maps

Values under text keys, kept in the order of the keys.

* `find?_insert` : what is found after an insertion;
* `find?_insertFirst` : the value that a key already has stays, if it is kept so;
* `forall_insert`, `forall_ofList` : what holds of every value put in holds of every value found.
-/

namespace Fluent

/-- Values under text keys, in increasing order of the keys. -/
structure SortedMap (α : Type) where
  entries : List (String × α)

namespace SortedMap

variable {α : Type}

/-- No entries. -/
def empty : SortedMap α :=
  ⟨[]⟩

/-- The entries with the value put under the key, replacing the one that was there. -/
def insertInto (key : String) (value : α) : List (String × α) → List (String × α)
  | [] => [(key, value)]
  | (k, v) :: rest =>
    if key < k then (key, value) :: (k, v) :: rest
    else if key = k then (key, value) :: rest
    else (k, v) :: insertInto key value rest

/-- Puts a value under a key, replacing the one that was there. -/
def insert (key : String) (value : α) (m : SortedMap α) : SortedMap α :=
  ⟨insertInto key value m.entries⟩

/-- The value under a key. -/
def find? (key : String) (m : SortedMap α) : Option α :=
  m.entries.lookup key

/-- There is a value under the key. -/
def contains (key : String) (m : SortedMap α) : Bool :=
  (m.find? key).isSome

/-- Puts a value under a key unless there is one already. -/
def insertFirst (key : String) (value : α) (m : SortedMap α) : SortedMap α :=
  if m.contains key then m else m.insert key value

/-- Takes away the value under a key. -/
def erase (key : String) (m : SortedMap α) : SortedMap α :=
  ⟨m.entries.filter fun entry => entry.1 != key⟩

/-- The keys in order. -/
def keys (m : SortedMap α) : List String :=
  m.entries.map (·.1)

/-- The number of keys. -/
def size (m : SortedMap α) : Nat :=
  m.entries.length

/-- There are no keys. -/
def isEmpty (m : SortedMap α) : Bool :=
  m.entries.isEmpty

/-- The map that arises when pairs are put in one after the other. -/
def ofList (pairs : List (String × α)) : SortedMap α :=
  pairs.foldl (fun m pair => m.insert pair.1 pair.2) empty

/-- A lookup in a list with one more entry in front asks that entry first. -/
theorem lookup_cons (other key : String) (value : α) (rest : List (String × α)) :
    ((key, value) :: rest).lookup other =
      if other = key then some value else rest.lookup other := by
  by_cases h : other = key
  · rw [if_pos h, h, List.lookup_cons_self]
  · rw [if_neg h, List.lookup_cons, show (other == key) = false by simpa using h]

/-- After an insertion the new key has the new value and every other key the value it had. -/
theorem lookup_insertInto (key other : String) (value : α) (entries : List (String × α)) :
    (insertInto key value entries).lookup other =
      if other = key then some value else entries.lookup other := by
  induction entries with
  | nil => simp [insertInto, lookup_cons]
  | cons entry rest ih =>
    obtain ⟨k, v⟩ := entry
    unfold insertInto
    split
    · rw [lookup_cons]
    · split
      · rename_i hk
        subst hk
        simp only [lookup_cons]
        split <;> rfl
      · rename_i hk
        simp only [lookup_cons, ih]
        by_cases ho : other = k
        · subst ho
          simp [Ne.symm hk]
        · simp [ho]

/-- What is found after an insertion: the new value under its key, the same as before elsewhere. -/
theorem find?_insert (m : SortedMap α) (key other : String) (value : α) :
    (m.insert key value).find? other = if other = key then some value else m.find? other :=
  lookup_insertInto key other value m.entries

/-- What is found after a value was put in unless its key had one: what was there comes first. -/
theorem find?_insertFirst (m : SortedMap α) (key other : String) (value : α) :
    (m.insertFirst key value).find? other =
      (m.find? other).or (if other = key then some value else none) := by
  unfold insertFirst contains
  cases hkey : m.find? key with
  | some found =>
    rw [if_pos Option.isSome_some]
    by_cases h : other = key
    · rw [h, hkey, Option.some_or]
    · rw [if_neg h, Option.or_none]
  | none =>
    rw [if_neg (by simp), find?_insert]
    by_cases h : other = key
    · rw [if_pos h, if_pos h, h, hkey, Option.none_or]
    · rw [if_neg h, if_neg h, Option.or_none]

/-- What holds of all values of a map and of a value holds of all values after its insertion. -/
theorem forall_insert {P : α → Prop} {m : SortedMap α}
    (hm : ∀ key value, m.find? key = some value → P value) (added : String) {new : α}
    (hnew : P new) : ∀ key value, (m.insert added new).find? key = some value → P value := by
  intro key value hvalue
  rw [find?_insert] at hvalue
  split at hvalue
  · rw [← Option.some.inj hvalue]
    exact hnew
  · exact hm key value hvalue

/-- What holds of the values of all pairs holds of all values of the map that they make. -/
theorem forall_ofList {P : α → Prop} {pairs : List (String × α)} (h : ∀ pair ∈ pairs, P pair.2) :
    ∀ key value, (ofList pairs).find? key = some value → P value := by
  -- the pairs are put in from the front, into a map whose values are all such
  have hfold : ∀ m : SortedMap α, (∀ key value, m.find? key = some value → P value) →
      ∀ key value, (pairs.foldl (fun m pair => m.insert pair.1 pair.2) m).find? key = some value →
        P value := by
    induction pairs with
    | nil => exact fun m hm => hm
    | cons pair pairs ih =>
      obtain ⟨hpair, hrest⟩ := List.forall_mem_cons.1 h
      exact fun m hm => ih hrest _ (forall_insert hm pair.1 hpair)
  exact hfold empty fun _ _ hv => by cases hv

end SortedMap

end Fluent
