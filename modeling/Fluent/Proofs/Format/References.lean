/-
# References between the patterns of a catalog

The patterns of a catalog are the values of its messages and terms and of their attributes; each has
an origin, by which it is referred to.  Which patterns refer to which can be read off the trees, and
so can how many levels a chain of references takes.

* `Catalog.patterns` : the patterns with their origins;
* `Catalog.Refers`, `ReferencePath` : references, and chains of them;
* `Catalog.pathLevels_le_nodes` : patterns that are all different take no more levels together than
  there are expressions.
-/
import Mathlib.Algebra.GroupWithZero.Nat
import Mathlib.Algebra.Order.BigOperators.Group.List
import Mathlib.Algebra.Order.Group.Nat
import Mathlib.Data.List.Nodup
import Fluent.Format.Ideal
import Fluent.Proofs.Tree.Levels

namespace Fluent

/-! ## Patterns by origin -/

/-- What is found under a key is one of the entries. -/
theorem SortedMap.mem_entries_of_find? {α : Type} {m : SortedMap α} {key : String} {found : α}
    (h : m.find? key = some found) : (key, found) ∈ m.entries := by
  obtain ⟨entries⟩ := m
  replace h : entries.lookup key = some found := h
  induction entries with
  | nil => cases h
  | cons entry rest ih =>
    rw [SortedMap.lookup_cons] at h
    split at h
    · rename_i hkey
      rw [hkey, ← Option.some.inj h]
      exact List.mem_cons_self
    · exact List.mem_cons_of_mem _ (ih h)

namespace Catalog

/-- The pattern of an origin. -/
def patternOf? (catalog : Catalog) : Origin → Option Pattern
  | .message id attr => catalog.messagePattern? id attr
  | .term id attr => catalog.termPattern? id attr
  | .standalone => none

/-- The patterns of an entry: its value, if it has one, and its attributes. -/
def entryPatterns (origin : Option String → Origin) (value : Option Pattern)
    (attributes : List Attribute) : List (Origin × Pattern) :=
  (value.map fun p => (origin none, p)).toList ++
    attributes.map fun a => (origin (some a.id.name), a.value)

/-- All patterns of a catalog with their origins. -/
def patterns (catalog : Catalog) : List (Origin × Pattern) :=
  (catalog.messages.entries.flatMap fun (id, m) =>
      entryPatterns (.message id) m.value m.attributes) ++
    catalog.terms.entries.flatMap fun (id, t) =>
      entryPatterns (.term id) (some t.value) t.attributes

/-- The number of expressions in a catalog. -/
def nodes (catalog : Catalog) : Nat :=
  (catalog.patterns.map fun entry => Pattern.nodes entry.2).sum

/-- The value of an attribute that is found is one of the patterns of its entry. -/
theorem mem_entryPatterns {origin : Option String → Origin} {value : Option Pattern}
    {attributes : List Attribute} {name : String} {a : Attribute}
    (h : findAttribute? name attributes = some a) :
    (origin (some name), a.value) ∈ entryPatterns origin value attributes := by
  have hname : a.id.name = name := by simpa using List.find?_some h
  refine List.mem_append_right _ (List.mem_map.2 ⟨a, List.mem_of_find?_eq_some h, ?_⟩)
  rw [hname]

/-- What an origin leads to is one of the patterns. -/
theorem mem_patterns {catalog : Catalog} {origin : Origin} {p : Pattern}
    (h : catalog.patternOf? origin = some p) : (origin, p) ∈ catalog.patterns := by
  cases origin with
  | standalone => cases h
  | message id attr =>
    refine List.mem_append_left _ ?_
    simp only [patternOf?, messagePattern?] at h
    cases hm : catalog.message? id with
    | none => simp [hm] at h
    | some m =>
      refine List.mem_flatMap.2 ⟨(id, m), SortedMap.mem_entries_of_find? hm, ?_⟩
      cases attr with
      | none => simp_all [entryPatterns]
      | some name =>
        rw [hm] at h
        obtain ⟨a, ha, rfl⟩ := Option.map_eq_some_iff.1 h
        exact mem_entryPatterns ha
  | term id attr =>
    refine List.mem_append_right _ ?_
    simp only [patternOf?, termPattern?] at h
    cases ht : catalog.term? id with
    | none => simp [ht] at h
    | some t =>
      refine List.mem_flatMap.2 ⟨(id, t), SortedMap.mem_entries_of_find? ht, ?_⟩
      cases attr with
      | none => simp_all [entryPatterns]
      | some name =>
        rw [ht] at h
        obtain ⟨a, ha, rfl⟩ := Option.map_eq_some_iff.1 h
        exact mem_entryPatterns ha

end Catalog

/-! ## References -/

/-- A reference to the origin lies where resolving the expression may come to: in the expression
itself, in the arguments of functions, in selectors or in variants.  The arguments that a reference
to a term gives by position are never resolved. -/
inductive Expression.Mentions : Expression → Origin → Prop
  | message (id : Identifier) (attr : Option Identifier) :
      Mentions (.message id attr) (.message id.name (attr.map (·.name)))
  | term (id : Identifier) (attr : Option Identifier) (arguments : Option CallArguments) :
      Mentions (.term id attr arguments) (.term id.name (attr.map (·.name)))
  | argument {id : Identifier} {call : CallArguments} {e : Expression} {o : Origin}
      (he : e ∈ call.positional) (h : Mentions e o) : Mentions (.function id call) o
  | selector {s : Selection} {o : Origin} (h : Mentions s.selector o) : Mentions (.select s) o
  | variant {s : Selection} {v : Variant} {e : Expression} {o : Origin} (hv : v ∈ s.variants)
      (he : .placeable e ∈ v.value) (h : Mentions e o) : Mentions (.select s) o
  | placeable {inner : Expression} {o : Origin} (h : Mentions inner o) :
      Mentions (.placeable inner) o

/-- A placeable of the pattern mentions the origin. -/
def Pattern.Mentions (p : Pattern) (o : Origin) : Prop :=
  ∃ e, .placeable e ∈ p ∧ Expression.Mentions e o

/-- The pattern of the first origin refers to the second one. -/
def Catalog.Refers (catalog : Catalog) (o next : Origin) : Prop :=
  ∃ p, catalog.patternOf? o = some p ∧ Pattern.Mentions p next

/-- A chain of references from a root on, the last one first: each origin on it has a pattern, and
refers to the next one. -/
inductive ReferencePath (catalog : Catalog) (root : Origin) : List Origin → Prop
  | root (h : (catalog.patternOf? root).isSome) : ReferencePath catalog root [root]
  | step {o next : Origin} {before : List Origin} (hpath : ReferencePath catalog root (o :: before))
      (hrefers : catalog.Refers o next) (h : (catalog.patternOf? next).isSome) :
      ReferencePath catalog root (next :: o :: before)

/-! ## Levels of chains -/

namespace Catalog

/-- The origins that have a pattern, with it. -/
def withPatterns (catalog : Catalog) (path : List Origin) : List (Origin × Pattern) :=
  path.filterMap fun o => (catalog.patternOf? o).map fun p => (o, p)

/-- The levels that the patterns of some origins take together. -/
def pathLevels (catalog : Catalog) (path : List Origin) : Nat :=
  ((catalog.withPatterns path).map fun entry => Pattern.levels entry.2).sum

/-- The levels of a path are those of its first pattern and those of the rest. -/
theorem pathLevels_cons {catalog : Catalog} {o : Origin} {p : Pattern}
    (h : catalog.patternOf? o = some p) (path : List Origin) :
    catalog.pathLevels (o :: path) = Pattern.levels p + catalog.pathLevels path := by
  simp [pathLevels, withPatterns, h]

/-- Each pattern takes at most the levels of the greatest one. -/
theorem pathLevels_le_mul {catalog : Catalog} {most : Nat} {path : List Origin}
    (h : ∀ o ∈ path, ∀ p, catalog.patternOf? o = some p → Pattern.levels p ≤ most) :
    catalog.pathLevels path ≤ path.length * most := by
  induction path with
  | nil => exact Nat.zero_le _
  | cons o path ih =>
    have hrest := ih fun other hother => h other (List.mem_cons_of_mem _ hother)
    rw [List.length_cons, Nat.succ_mul]
    cases hp : catalog.patternOf? o with
    | none =>
      have hskip : catalog.pathLevels (o :: path) = catalog.pathLevels path := by
        simp [pathLevels, withPatterns, hp]
      omega
    | some p =>
      have hfirst := h o List.mem_cons_self p hp
      rw [pathLevels_cons hp]
      omega

/-- **Different patterns share no expressions**: together they take no more levels than there are
expressions in the catalog. -/
theorem pathLevels_le_nodes (catalog : Catalog) {path : List Origin} (h : path.Nodup) :
    catalog.pathLevels path ≤ catalog.nodes := by
  have hnodup : (catalog.withPatterns path).Nodup := by
    refine List.Nodup.filterMap (fun o o' entry ho ho' => ?_) h
    obtain ⟨p, -, rfl⟩ := Option.map_eq_some_iff.1 ho
    obtain ⟨p', -, heq⟩ := Option.map_eq_some_iff.1 ho'
    exact (Prod.mk.inj heq).1.symm
  have hsubset : catalog.withPatterns path ⊆ catalog.patterns := by
    intro entry hentry
    obtain ⟨o, -, ho⟩ := List.mem_filterMap.1 hentry
    obtain ⟨p, hp, rfl⟩ := Option.map_eq_some_iff.1 ho
    exact mem_patterns hp
  have hlevels : catalog.pathLevels path ≤
      ((catalog.withPatterns path).map fun entry => Pattern.nodes entry.2).sum :=
    List.sum_le_sum fun entry _ => Pattern.levels_le_nodes entry.2
  -- as a part of all patterns, up to their order, they hold a part of all expressions
  obtain ⟨list, hperm, hsub⟩ := List.subperm_of_subset hnodup hsubset
  refine Nat.le_trans hlevels ?_
  rw [← (hperm.map _).sum_eq]
  exact (hsub.map _).sum_le_sum fun _ _ => Nat.zero_le _

end Catalog

end Fluent
