/-
# Names in parsed catalogs

A catalog of parsed entries holds, at every depth, only what the rules of the grammar read.  In
particular each name in it is a name of the grammar, so that none holds isolation marks; texts and
string values may.

* `Expression.Keeps.subtrees` : all that stands in a tree keeps the rules that the tree keeps;
* `Catalog.mem_entries_add` : where the entries of a catalog come from;
* `Catalog.IsParsed.unmarked_names` : the names in a catalog of parsed entries hold no marks;
* `Catalog.unmarked_of_values` : so the catalog holds none if neither its texts nor its string
  values do.
-/
import Fluent.Proofs.Format.Containment
import Fluent.Proofs.Format.Marks

namespace Fluent

open Grammar

/-! ## Rules at every depth -/

section Subtrees

variable {rules : TreeRules}

mutual

/-- All that stands in an expression keeps the rules that the expression keeps. -/
theorem Expression.Keeps.subtrees (hplaced : ∀ e, rules.placed e) :
    ∀ e : Expression, e.Keeps rules → ∀ x ∈ e.subtrees, x.Keeps rules
  | .string _, h | .number _, h | .var _, h | .message _ _, h | .term _ _ _, h =>
    List.forall_mem_singleton.2 ⟨hplaced _, h⟩
  | .function _ call, h =>
    List.forall_mem_cons.2 ⟨⟨hplaced _, h⟩, CallArguments.Keeps.subtrees hplaced call h.2⟩
  | .select selection, h =>
    List.forall_mem_cons.2 ⟨⟨hplaced _, h⟩, Selection.Keeps.subtrees hplaced selection h⟩
  | .placeable inner, h =>
    List.forall_mem_cons.2 ⟨⟨hplaced _, h⟩, Expression.Keeps.subtrees hplaced inner h.2⟩

theorem CallArguments.Keeps.subtrees (hplaced : ∀ e, rules.placed e) :
    ∀ call : CallArguments, call.Keeps rules → ∀ x ∈ call.subtrees, x.Keeps rules
  | ⟨positional, _⟩, ⟨_, h, _⟩ => argumentsKeep_subtrees hplaced positional h

theorem Selection.Keeps.subtrees (hplaced : ∀ e, rules.placed e) :
    ∀ s : Selection, s.Keeps rules → ∀ x ∈ s.subtrees, x.Keeps rules
  | ⟨selector, variants, _⟩, ⟨_, hselector, hvariants⟩ =>
    List.forall_mem_append.2 ⟨Expression.Keeps.subtrees hplaced selector hselector,
      variantsKeep_subtrees hplaced variants hvariants⟩

theorem Variant.Keeps.subtrees (hplaced : ∀ e, rules.placed e) :
    ∀ v : Variant, v.Keeps rules → ∀ x ∈ v.subtrees, x.Keeps rules
  | ⟨_, value, _⟩, ⟨_, _, h⟩ => elementsKeep_subtrees hplaced value h

/-- The expressions in a rule-keeping pattern element keep the rules. -/
theorem PatternElement.Keeps.subtrees (hplaced : ∀ e, rules.placed e) :
    ∀ x : PatternElement, x.Keeps rules → ∀ y ∈ x.subtrees, y.Keeps rules
  | .text _, h => List.forall_mem_singleton.2 h
  | .placeable e, h => Expression.Keeps.subtrees hplaced e h.2

theorem argumentsKeep_subtrees (hplaced : ∀ e, rules.placed e) :
    ∀ es : List Expression, argumentsKeep rules es → ∀ x ∈ argumentsSubtrees es, x.Keeps rules
  | [], _ => List.forall_mem_nil _
  | e :: es, ⟨h, hs⟩ => List.forall_mem_append.2
    ⟨Expression.Keeps.subtrees hplaced e h, argumentsKeep_subtrees hplaced es hs⟩

theorem variantsKeep_subtrees (hplaced : ∀ e, rules.placed e) :
    ∀ vs : List Variant, variantsKeep rules vs → ∀ x ∈ variantsSubtrees vs, x.Keeps rules
  | [], _ => List.forall_mem_nil _
  | v :: vs, ⟨h, hs⟩ => List.forall_mem_append.2
    ⟨Variant.Keeps.subtrees hplaced v h, variantsKeep_subtrees hplaced vs hs⟩

theorem elementsKeep_subtrees (hplaced : ∀ e, rules.placed e) :
    ∀ xs : List PatternElement, elementsKeep rules xs → ∀ y ∈ elementsSubtrees xs, y.Keeps rules
  | [], _ => List.forall_mem_nil _
  | x :: xs, ⟨h, hs⟩ => List.forall_mem_append.2
    ⟨PatternElement.Keeps.subtrees hplaced x h, elementsKeep_subtrees hplaced xs hs⟩

end

end Subtrees

/-! ## The entries of a catalog -/

/-- A pair of a map after an insertion is the new one or was there before. -/
theorem SortedMap.mem_insertInto {α : Type} {key : String} {value : α}
    {entries : List (String × α)} {pair : String × α}
    (h : pair ∈ SortedMap.insertInto key value entries) : pair = (key, value) ∨ pair ∈ entries := by
  fun_induction SortedMap.insertInto key value entries with
  | case1 => exact .inl (List.mem_singleton.1 h)
  | case2 => exact List.mem_cons.1 h
  | case3 => exact (List.mem_cons.1 h).imp_right (List.mem_cons_of_mem _)
  | case4 k v rest _ _ ih =>
    rcases List.mem_cons.1 h with rfl | h
    · exact .inr List.mem_cons_self
    · exact (ih h).imp_right (List.mem_cons_of_mem _)

/-- A first insertion brings in no other pair than its own. -/
theorem SortedMap.mem_insertFirst {α : Type} {map : SortedMap α} {key : String} {value : α}
    {pair : String × α} (h : pair ∈ (map.insertFirst key value).entries) :
    pair = (key, value) ∨ pair ∈ map.entries := by
  unfold SortedMap.insertFirst at h
  split at h
  · exact .inr h
  · exact SortedMap.mem_insertInto h

namespace Catalog

/-- The messages and terms of the catalog. -/
def entries (catalog : Catalog) : List Entry :=
  (catalog.messages.entries.map fun entry => .message entry.2) ++
    catalog.terms.entries.map fun entry => .term entry.2

variable {catalog : Catalog}

/-- Adding an entry brings in no other one. -/
theorem mem_entries_addEntry {added e : Entry} (h : e ∈ (catalog.addEntry added).entries) :
    e = added ∨ e ∈ catalog.entries := by
  cases added with
  | message m =>
    rcases List.mem_append.1 h with h | h
    · obtain ⟨pair, hpair, rfl⟩ := List.mem_map.1 h
      rcases SortedMap.mem_insertFirst hpair with rfl | hpair
      · exact .inl rfl
      · exact .inr (List.mem_append_left _ (List.mem_map.2 ⟨pair, hpair, rfl⟩))
    · exact .inr (List.mem_append_right _ h)
  | term t =>
    rcases List.mem_append.1 h with h | h
    · exact .inr (List.mem_append_left _ h)
    · obtain ⟨pair, hpair, rfl⟩ := List.mem_map.1 h
      rcases SortedMap.mem_insertFirst hpair with rfl | hpair
      · exact .inl rfl
      · exact .inr (List.mem_append_right _ (List.mem_map.2 ⟨pair, hpair, rfl⟩))
  | comment _ => exact .inr h
  | junk _ => exact .inr h

/-- Adding a list of entries brings in no other ones. -/
theorem mem_entries_addEntries {list : List Entry} {e : Entry}
    (h : e ∈ (catalog.addEntries list).1.entries) : e ∈ list ∨ e ∈ catalog.entries := by
  induction list generalizing catalog with
  | nil => exact .inr h
  | cons added rest ih =>
    rcases ih h with hrest | hadded
    · exact .inl (List.mem_cons_of_mem _ hrest)
    · rcases mem_entries_addEntry hadded with rfl | hold
      · exact .inl List.mem_cons_self
      · exact .inr hold

/-- An entry of a catalog that a resource was added to is one of the resource, or was there
before. -/
theorem mem_entries_add {resource : Resource} {e : Entry}
    (h : e ∈ (catalog.add resource).1.entries) : e ∈ resource.entries ∨ e ∈ catalog.entries :=
  mem_entries_addEntries h

/-- Each pattern of a catalog is that of an entry. -/
theorem exists_entry_of_mem_patterns {o : Origin} {p : Pattern} (h : (o, p) ∈ catalog.patterns) :
    ∃ e ∈ catalog.entries, p ∈ e.patterns := by
  have hpattern : ∀ {origin : Option String → Origin} {value : Option Pattern}
      {attributes : List Attribute}, (o, p) ∈ entryPatterns origin value attributes →
        p ∈ value.toList ++ attributes.map Attribute.value := by
    intro origin value attributes hmem
    rcases List.mem_append.1 hmem with hmem | hmem
    · obtain ⟨found, hfound, heq⟩ := Option.map_eq_some_iff.1 (Option.mem_toList.1 hmem)
      obtain ⟨-, rfl⟩ := Prod.mk.inj heq
      exact List.mem_append_left _ (Option.mem_toList.2 hfound)
    · obtain ⟨a, ha, heq⟩ := List.mem_map.1 hmem
      obtain ⟨-, rfl⟩ := Prod.mk.inj heq
      exact List.mem_append_right _ (List.mem_map_of_mem ha)
  rcases List.mem_append.1 h with h | h
  · obtain ⟨pair, hpair, hmem⟩ := List.mem_flatMap.1 h
    exact ⟨.message pair.2, List.mem_append_left _ (List.mem_map.2 ⟨pair, hpair, rfl⟩),
      hpattern hmem⟩
  · obtain ⟨pair, hpair, hmem⟩ := List.mem_flatMap.1 h
    exact ⟨.term pair.2, List.mem_append_right _ (List.mem_map.2 ⟨pair, hpair, rfl⟩),
      hpattern hmem⟩

/-- All entries of the catalog were parsed from some sources. -/
def IsParsed (catalog : Catalog) : Prop :=
  ∀ e ∈ catalog.entries, e.IsParsed

/-- The empty catalog holds parsed entries only. -/
theorem isParsed_empty : Catalog.empty.IsParsed :=
  List.forall_mem_nil _

/-- A catalog of parsed entries stays one when a parsed text is added. -/
theorem IsParsed.add (h : catalog.IsParsed) (settings : ParserSettings) (source : List Char) :
    (catalog.add (Resource.parse settings source)).1.IsParsed := by
  intro e he
  rcases mem_entries_add he with hnew | hold
  · exact ⟨settings, source, hnew⟩
  · exact h e hold

end Catalog

/-! ## Names and values -/

/-- The names of what an expression itself refers to. -/
def Expression.names : Expression → List String
  | .var id | .function id _ => [id.name]
  | .message id attr | .term id attr _ => id.name :: (attr.map (·.name)).toList
  | .string _ | .number _ | .select _ | .placeable _ => []

/-- The string values of an expression itself, unescaped. -/
def Expression.values : Expression → List String
  | .string literal => [literal.value]
  | .term _ _ arguments => (arguments.map (·.namedTexts)).getD []
  | .function _ call => call.namedTexts
  | .var _ | .message .. | .number _ | .select _ | .placeable _ => []

/-- The names in an element itself. -/
def PatternElement.names : PatternElement → List String
  | .text _ => []
  | .placeable e => e.names

/-- The text of an element, or its string values. -/
def PatternElement.values : PatternElement → List String
  | .text value => [value]
  | .placeable e => e.values

/-- Neither the texts nor the string values in the patterns of the catalog hold marks. -/
def Catalog.ValuesUnmarked (catalog : Catalog) : Prop :=
  ∀ x ∈ catalog.subtrees, ∀ text ∈ x.values, Fluent.Unmarked text.toList

/-- No name in the patterns of the catalog holds marks. -/
def Catalog.NamesUnmarked (catalog : Catalog) : Prop :=
  ∀ x ∈ catalog.subtrees, ∀ name ∈ x.names, Fluent.Unmarked name.toList

/-- The texts of an element itself are its names and its values. -/
theorem PatternElement.unmarked_of_parts {x : PatternElement}
    (hnames : ∀ name ∈ x.names, Fluent.Unmarked name.toList)
    (hvalues : ∀ text ∈ x.values, Fluent.Unmarked text.toList) : x.Unmarked := by
  cases x with
  | text value => exact hvalues
  | placeable e =>
    cases e with
    | string | number | select | placeable => exact hvalues
    | var | message => exact hnames
    | term id attr arguments => exact List.forall_mem_append.2 ⟨hnames, hvalues⟩
    | function id call => exact List.forall_mem_append.2 ⟨hnames, hvalues⟩

/-- A name of the grammar holds no marks. -/
theorem Grammar.IsName.unmarked {name : List Char} (h : IsName name) : Unmarked name := by
  intro ch hch
  have hchar := h.chars ch hch
  constructor
  · rintro rfl
    exact absurd hchar (by decide)
  · rintro rfl
    exact absurd hchar (by decide)

/-- The rules of the checked constructors, and that of names. -/
def TreeRules.named : TreeRules :=
  { TreeRules.constructors with name := fun id => IsName id.name.toList }

/-- The names of an element that keeps the rules are names of the grammar. -/
theorem PatternElement.Keeps.isName {x : PatternElement} (h : x.Keeps .named) :
    ∀ name ∈ x.names, IsName name.toList := by
  cases x with
  | text value => exact List.forall_mem_nil _
  | placeable e =>
    have hreference : ∀ {id : Identifier} {attr : Option Identifier},
        TreeRules.named.Reference id attr →
          ∀ name ∈ id.name :: (attr.map (·.name)).toList, IsName name.toList := by
      rintro id attr ⟨hid, hattr⟩
      refine List.forall_mem_cons.2 ⟨hid, fun name hname => ?_⟩
      obtain ⟨a, ha, rfl⟩ := Option.map_eq_some_iff.1 (Option.mem_toList.1 hname)
      exact hattr a ha
    cases e with
    | string | number | select | placeable => exact List.forall_mem_nil _
    | var id => exact List.forall_mem_singleton.2 h.2
    | function id call => exact List.forall_mem_singleton.2 h.2.1
    | message id attr => exact hreference h.2
    | term id attr arguments =>
      cases arguments with
      | none => exact hreference h.2
      | some call => exact hreference h.2.1

/-- **In a catalog of parsed entries no name holds marks.** -/
theorem Catalog.IsParsed.unmarked_names {catalog : Catalog} (h : catalog.IsParsed) :
    catalog.NamesUnmarked := by
  intro x hx
  obtain ⟨⟨o, p⟩, hp, hx⟩ := List.mem_flatMap.1 hx
  obtain ⟨e, he, hp⟩ := exists_entry_of_mem_patterns hp
  obtain ⟨settings, source, hmem⟩ := h e he
  have hweaker : (TreeRules.wellFormed (utf8Length source)).Implies .named :=
    ⟨fun _ h => h, fun _ _ => trivial, fun _ _ => trivial, fun _ _ => trivial, fun _ _ => trivial⟩
  have hkeeps := (parse_keeps settings hweaker e hmem).patterns p hp
  have hsubtree := elementsKeep_subtrees (fun _ => trivial) p (elementsKeep_iff.2 hkeeps.2) x hx
  exact fun name hname => (hsubtree.isName name hname).unmarked

/-- A catalog holds no marks if neither its values do nor its names, as those that were parsed. -/
theorem Catalog.unmarked_of_values {catalog : Catalog}
    (hnames : catalog.IsParsed ∨ catalog.NamesUnmarked) (hvalues : catalog.ValuesUnmarked) :
    catalog.Unmarked := by
  have hall : catalog.NamesUnmarked := hnames.elim IsParsed.unmarked_names id
  exact fun x hx => PatternElement.unmarked_of_parts (hall x hx) (hvalues x hx)

end Fluent
