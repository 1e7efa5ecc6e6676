/-
# Named values

Arguments are given one after the other, under any names and in any order.  What is kept of them is
for each name the value that was given last, in the order of the names; nothing else of how they
were given can be seen.

* `SortedMap.find?_ofList` : the last value of each name is found;
* `SortedMap.size_ofList` : each name counts once;
* `Arguments.last_value_kept` : all that can be seen of arguments, by halves and entry by entry.
-/
import Mathlib.Data.List.Dedup
import Fluent.Proofs.SortedMap.Bisection
import Fluent.Format.Value

namespace Fluent

variable {α : Type}

/-- The value that is given last under the key. -/
def lastValue? (key : String) (pairs : List (String × α)) : Option α :=
  pairs.reverse.lookup key

/-- A pair at the end gives its key the last value. -/
theorem lastValue?_append (key : String) (pairs : List (String × α)) (pair : String × α) :
    lastValue? key (pairs ++ [pair]) =
      if key = pair.1 then some pair.2 else lastValue? key pairs := by
  rw [lastValue?, List.reverse_concat, SortedMap.lookup_cons]
  rfl

namespace SortedMap

/-- **The value that was put in last is found** under each key. -/
theorem find?_ofList (pairs : List (String × α)) (key : String) :
    (ofList pairs).find? key = lastValue? key pairs := by
  induction pairs using List.reverseRecOn with
  | nil => rfl
  | append_singleton pairs pair ih =>
    rw [ofList, List.foldl_concat, find?_insert, lastValue?_append, ← ih]
    rfl

/-- The keys are those of the pairs that were put in. -/
theorem mem_keys_ofList {pairs : List (String × α)} {key : String} :
    key ∈ (ofList pairs).keys ↔ key ∈ pairs.map (·.1) := by
  rw [mem_keys_iff, find?_ofList, lastValue?, List.lookup_isSome_iff, List.mem_map]
  constructor
  · rintro ⟨pair, hpair, heq⟩
    exact ⟨pair, List.mem_reverse.1 hpair, (eq_of_beq heq).symm⟩
  · rintro ⟨pair, hpair, rfl⟩
    exact ⟨pair, List.mem_reverse.2 hpair, beq_self_eq_true _⟩

/-- Each key counts once. -/
theorem size_ofList (pairs : List (String × α)) :
    (ofList pairs).size = (pairs.map (·.1)).dedup.length := by
  have hkeys : (ofList pairs).keys.Nodup := (ordered_ofList pairs).keys.imp fun hlt => hlt.ne
  have hperm : (ofList pairs).keys.Perm (pairs.map (·.1)).dedup :=
    (List.perm_ext_iff_of_nodup hkeys (List.nodup_dedup _)).2 fun key => by
      rw [List.mem_dedup]
      exact mem_keys_ofList
  rw [← hperm.length_eq, keys, List.length_map]
  rfl

end SortedMap

/-- **Of arguments the last value of each name is kept, in the order of the names.**  However they
are given, also if each is put in by halves, the names increase and are those given; under each name
the last value is found, entry by entry and by halves; each name counts and is listed once; and
arguments given otherwise are the same, or alike in any sense at each place, if and only if their
last values are under each name. -/
theorem Arguments.last_value_kept (sets : List (String × Value)) :
    let args : Arguments := .ofList sets
    sets.foldl (fun args set => args.insertBisecting set.1 set.2) SortedMap.empty = args ∧
      args.keys.Pairwise (· < ·) ∧
      (∀ key, key ∈ args.keys ↔ key ∈ sets.map (·.1)) ∧
      (∀ key, args.find? key = lastValue? key sets ∧
        args.find?Bisecting key = lastValue? key sets) ∧
      (∀ key value, (key, value) ∈ args.entries ↔ lastValue? key sets = some value) ∧
      args.size = (sets.map (·.1)).dedup.length ∧
      ∀ others : List (String × Value),
        (args = .ofList others ↔ ∀ key, lastValue? key sets = lastValue? key others) ∧
        ∀ alike : Value → Value → Prop,
          List.Forall₂ (fun a b => a.1 = b.1 ∧ alike a.2 b.2) args.entries
              (SortedMap.ofList others).entries ↔
            ∀ key, Option.Rel alike (lastValue? key sets) (lastValue? key others) := by
  have hordered := SortedMap.ordered_ofList sets
  have hfind := SortedMap.find?_ofList sets
  refine ⟨SortedMap.foldl_insertBisecting sets, hordered.keys,
    fun key => SortedMap.mem_keys_ofList, fun key => ⟨hfind key, ?_⟩, fun key value => ?_,
    SortedMap.size_ofList sets, fun others => ?_⟩
  · rw [hordered.find?Bisecting_eq, hfind]
  · rw [← hordered.find?_eq_some_iff, hfind]
  · have hothers := SortedMap.ordered_ofList others
    have hfind' := SortedMap.find?_ofList others
    constructor
    · rw [hordered.eq_iff hothers]
      simp only [hfind, hfind']
    · intro alike
      rw [hordered.forall₂_iff hothers]
      simp only [hfind, hfind']

end Fluent
