/-
# Parsed messages are affordable

What the parser accepts can be formatted.  A parsed pattern takes at most one level more than it is
nested, and the patterns that are resolved at one moment lie on one path of references; so a limit
on depth that has room for the levels along every path is never reached.

* `Catalog.Defines` : the entries of a catalog, and where they come from (`Catalog.all_add`);
* `Formatter.depthExceeded_not_mem` : a limit that is large enough for all paths is not reached;
* `Formatter.affordable` : so a limit can be told from the nesting and from the lengths of paths.
-/
import Fluent.Proofs.Format.FormatRun
import Fluent.Proofs.Resource.PatternLevels

namespace Fluent

/-! ## The entries of a catalog -/

/-- The entry can be parsed from some source. -/
def Entry.IsParsed (e : Entry) : Prop :=
  ∃ settings source, e ∈ (Resource.parse settings source).entries

namespace Catalog

/-- The entry is one of the messages and terms of the catalog. -/
def Defines (catalog : Catalog) : Entry → Prop
  | .message m => ∃ id, catalog.message? id = some m
  | .term t => ∃ id, catalog.term? id = some t
  | .comment _ | .junk _ => False

/-- Nothing is in the map after an insertion but the new value and what was there before. -/
theorem find?_insertFirst {α : Type} {map : SortedMap α} {key other : String} {value found : α}
    (h : (map.insertFirst key value).find? other = some found) :
    found = value ∨ map.find? other = some found := by
  rw [SortedMap.find?_insertFirst, Option.or_eq_some_iff] at h
  rcases h with h | ⟨-, h⟩
  · exact .inr h
  · split at h
    · exact .inl (Option.some.inj h).symm
    · cases h

variable {catalog : Catalog}

/-- Adding an entry makes the catalog define nothing else. -/
theorem defines_addEntry {added e : Entry} (h : (catalog.addEntry added).Defines e) :
    e = added ∨ catalog.Defines e := by
  cases added with
  | message m =>
    cases e with
    | message found =>
      obtain ⟨id, h⟩ := h
      rcases find?_insertFirst h with rfl | h
      · exact .inl rfl
      · exact .inr ⟨id, h⟩
    | _ => exact .inr h
  | term t =>
    cases e with
    | term found =>
      obtain ⟨id, h⟩ := h
      rcases find?_insertFirst h with rfl | h
      · exact .inl rfl
      · exact .inr ⟨id, h⟩
    | _ => exact .inr h
  | comment _ => exact .inr h
  | junk _ => exact .inr h

/-- What holds of all entries of a catalog and of a list holds of all entries once the list is
added. -/
theorem all_addEntries {P : Entry → Prop} {list : List Entry} (hlist : ∀ e ∈ list, P e)
    (h : ∀ e, catalog.Defines e → P e) : ∀ e, (catalog.addEntries list).1.Defines e → P e := by
  induction list generalizing catalog with
  | nil => exact h
  | cons added rest ih =>
    refine ih (fun e he => hlist e (List.mem_cons_of_mem _ he)) fun e he => ?_
    rcases defines_addEntry he with rfl | he
    · exact hlist e List.mem_cons_self
    · exact h e he

/-- What holds of all entries of a catalog and of a resource holds of all entries of the catalog
that the resource is added to. -/
theorem all_add {P : Entry → Prop} {resource : Resource} (hresource : ∀ e ∈ resource.entries, P e)
    (h : ∀ e, catalog.Defines e → P e) : ∀ e, (catalog.add resource).1.Defines e → P e :=
  all_addEntries hresource h

/-- Every pattern is that of an entry. -/
theorem exists_entry {o : Origin} {p : Pattern} (h : catalog.patternOf? o = some p) :
    ∃ e, catalog.Defines e ∧ p ∈ e.patterns := by
  cases o with
  | standalone => cases h
  | message id attr =>
    simp only [patternOf?, messagePattern?] at h
    split at h
    · cases h
    · rename_i m hm
      exact ⟨.message m, ⟨id, hm⟩, List.mem_append_left _ (Option.mem_toList.2 h)⟩
    · rename_i m name hm
      obtain ⟨a, ha, rfl⟩ := Option.map_eq_some_iff.1 h
      exact ⟨.message m, ⟨id, hm⟩, List.mem_append_right _
        (List.mem_map_of_mem (List.mem_of_find?_eq_some ha))⟩
  | term id attr =>
    simp only [patternOf?, termPattern?] at h
    split at h
    · cases h
    · rename_i t ht
      obtain rfl := Option.some.inj h
      exact ⟨.term t, ⟨id, ht⟩, List.mem_cons_self⟩
    · rename_i t name ht
      obtain ⟨a, ha, rfl⟩ := Option.map_eq_some_iff.1 h
      exact ⟨.term t, ⟨id, ht⟩, List.mem_cons_of_mem _
        (List.mem_map_of_mem (List.mem_of_find?_eq_some ha))⟩

/-- A pattern of parsed entries takes at most one level more than it is nested. -/
theorem levels_le (hparsed : ∀ e, catalog.Defines e → e.IsParsed) {o : Origin} {p : Pattern}
    (h : catalog.patternOf? o = some p) : Pattern.levels p ≤ Pattern.nesting p + 1 := by
  obtain ⟨e, he, hp⟩ := exists_entry h
  obtain ⟨settings, source, hmem⟩ := hparsed e he
  exact parse_levels_le settings source e hmem p hp

end Catalog

/-! ## Limits that are large enough -/

namespace Formatter

variable {formatter : Formatter} {id : String} {attr : Option String} {args : Arguments}

/-- A limit that has room for all patterns of each path of references is not reached. -/
theorem depthExceeded_not_mem (hplain : formatter.functions.IsPlain)
    (h : ∀ path, IsPath formatter.catalog (.message id attr) path →
      formatter.catalog.pathLevels path < formatter.limit) (limit : Nat) :
    .depthExceeded limit ∉ (formatter.format id attr args).errors := by
  intro hdeep
  obtain ⟨m, hm, rfl, place, e, htask, hreached⟩ := exists_records hplain hdeep trivial
  have hlevel := hm.fits.level_fits htask
  have hroom := h _ hm.fits.path
  omega

/-- The nesting of parsed patterns and the lengths of paths say which limits are large enough. -/
theorem depthExceeded_not_mem_of_parsed (hplain : formatter.functions.IsPlain)
    (hparsed : ∀ e, formatter.catalog.Defines e → e.IsParsed) {N K : Nat}
    (hnesting : ∀ o p, Relation.ReflTransGen formatter.catalog.Refers (.message id attr) o →
      formatter.catalog.patternOf? o = some p → Pattern.nesting p ≤ N)
    (hpaths : ∀ path, ReferencePath formatter.catalog (.message id attr) path → path.length ≤ K)
    (hlimit : 1 + K * (N + 1) ≤ formatter.limit) (limit : Nat) :
    .depthExceeded limit ∉ (formatter.format id attr args).errors := by
  apply depthExceeded_not_mem hplain
  intro path hpath
  rcases hpath with rfl | hpath
  · show 0 < formatter.limit
    omega
  · have hlevels : formatter.catalog.pathLevels path ≤ path.length * (N + 1) :=
      Catalog.pathLevels_le_mul fun o ho p hp => Nat.le_trans (Catalog.levels_le hparsed hp)
        (Nat.succ_le_succ (hnesting o p (hpath.leads o ho).1 hp))
    have hlength := Nat.mul_le_mul_right (N + 1) (hpaths path hpath)
    omega

/-- Without references the path ends where it starts. -/
theorem length_le_one {catalog : Catalog} {root : Origin} (h : ∀ o, ¬catalog.Refers root o)
    {path : List Origin} (hpath : ReferencePath catalog root path) : path.length ≤ 1 := by
  induction hpath with
  | root => exact Nat.le_refl 1
  | @step o next before hbefore hrefers _ ih =>
    cases hbefore with
    | root => exact absurd hrefers (h next)
    | step => exact absurd ih (by simp)

/-- **What the parser accepts can be formatted.**  If the patterns that references lead to from a
message are nested at most `N` levels deep, and no path of references passes through more than `K`
of them, then a limit of `1 + K * (N + 1)` is not exceeded, whatever the arguments and the locale
are.  A message that refers to nothing needs no more than two levels besides those of its nesting,
and so no more than two besides those that the parser allows; by default there is room for them. -/
theorem affordable (hplain : formatter.functions.IsPlain)
    (hparsed : ∀ e, formatter.catalog.Defines e → e.IsParsed) (id : String) (attr : Option String)
    (args : Arguments) :
    let catalog := formatter.catalog
    let root := Origin.message id attr
    let errors := (formatter.format id attr args).errors
    (∀ N K, (∀ o p, Relation.ReflTransGen catalog.Refers root o → catalog.patternOf? o = some p →
        Pattern.nesting p ≤ N) →
      (∀ path, ReferencePath catalog root path → path.length ≤ K) →
      1 + K * (N + 1) ≤ formatter.limit → ∀ limit, .depthExceeded limit ∉ errors) ∧
    ((∀ o, ¬catalog.Refers root o) →
      (∀ N, (∀ p, catalog.patternOf? root = some p → Pattern.nesting p ≤ N) →
        N + 2 ≤ formatter.limit → ∀ limit, .depthExceeded limit ∉ errors) ∧
      ∀ parser : ParserSettings,
        (∀ e, catalog.Defines e → ∃ source, e ∈ (Resource.parse parser source).entries) →
        parser.maxNestingDepth + 2 ≤ formatter.limit → ∀ limit, .depthExceeded limit ∉ errors) ∧
    ({} : ParserSettings).maxNestingDepth + 2 ≤ ({} : ResolverSettings).maxExpressionDepth := by
  intro catalog root errors
  refine ⟨fun N K hnesting hpaths hlimit => ?_, fun hnone => ?_, Nat.le_of_lt default_depths⟩
  · exact depthExceeded_not_mem_of_parsed hplain hparsed hnesting hpaths hlimit
  -- only the message itself can be reached
  have hroot : ∀ o, Relation.ReflTransGen catalog.Refers root o → o = root := by
    intro o ho
    rcases ho.cases_head with rfl | ⟨next, hrefers, -⟩
    · rfl
    · exact absurd hrefers (hnone next)
  have hplainly : ∀ N, (∀ p, catalog.patternOf? root = some p → Pattern.nesting p ≤ N) →
      N + 2 ≤ formatter.limit → ∀ limit, .depthExceeded limit ∉ errors := by
    intro N hnesting hlimit
    refine depthExceeded_not_mem_of_parsed (N := N) (K := 1) hplain hparsed (fun o p ho hp => ?_)
      (fun path hpath => length_le_one hnone hpath) (by omega)
    rw [hroot o ho] at hp
    exact hnesting p hp
  refine ⟨hplainly, fun parser hread hlimit => hplainly _ (fun p hp => ?_) hlimit⟩
  obtain ⟨e, he, hmem⟩ := Catalog.exists_entry hp
  obtain ⟨source, hsource⟩ := hread e he
  exact parse_nesting_le parser source e hsource p hmem

/-- A cat that sleeps depending on a term, which depends on an argument. -/
def napping : List Char :=
  ("cat = \x7b -mood.now ->\n   *[calm] zzz\n\x7d\n" ++
    "-mood = good\n    .now = \x7b $mood ->\n       *[calm] calm\n    \x7d\n").toList

/-- A formatter with these two entries and a limit on the depth. -/
def napper (limit : Nat) : Formatter where
  catalog := (Catalog.empty.add (Resource.parse {} napping)).1
  settings := { maxExpressionDepth := limit }

/-- The cat's mood is the only thing that is referred to. -/
theorem napper_refers {limit : Nat} {o next : Origin} (h : (napper limit).catalog.Refers o next) :
    o = .message "cat" none ∧ next = .term "mood" (some "now") := by
  obtain ⟨p, hp, e, he, hmentions⟩ := h
  have hpatterns : (napper 0).catalog.patterns =
      [(.message "cat" none, [.placeable (.select ⟨.term ⟨"mood"⟩ (some ⟨"now"⟩) none,
          [⟨.identifier ⟨"calm"⟩, [.text "zzz"], true⟩], 0⟩)]),
        (.term "mood" none, [.text "good"]),
        (.term "mood" (some "now"), [.placeable (.select ⟨.var ⟨"mood"⟩,
          [⟨.identifier ⟨"calm"⟩, [.text "calm"], true⟩], 0⟩)])] := by
    decide +kernel
  have hmem := Catalog.mem_patterns hp
  rw [show (napper limit).catalog.patterns = _ from hpatterns] at hmem
  simp only [List.mem_cons, List.not_mem_nil, or_false, Prod.mk.injEq] at hmem
  rcases hmem with ⟨rfl, rfl⟩ | ⟨rfl, rfl⟩ | ⟨rfl, rfl⟩
  · obtain rfl : e = _ := by simpa using he
    cases hmentions with
    | selector h =>
      cases h
      exact ⟨rfl, rfl⟩
    | variant hv hinner =>
      obtain rfl := List.mem_singleton.1 hv
      simp at hinner
  · simp at he
  · obtain rfl : e = _ := by simpa using he
    cases hmentions with
    | selector h => cases h
    | variant hv hinner =>
      obtain rfl := List.mem_singleton.1 hv
      simp at hinner

/-- Two patterns on a path, each nested once, need a limit of five; four is not enough. -/
theorem affordable_napper :
    (napper 5).functions.IsPlain ∧ (∀ e, (napper 5).catalog.Defines e → e.IsParsed) ∧
      (∀ limit, .depthExceeded limit ∉ ((napper 5).format "cat").errors) ∧
      ((napper 4).format "cat").errors = [.depthExceeded 4] := by
  have hplain : (napper 5).functions.IsPlain := FunctionTable.isPlain_builtins
  have hparsed : ∀ e, (napper 5).catalog.Defines e → e.IsParsed := by
    refine Catalog.all_add (fun e he => ⟨_, _, he⟩) fun e he => ?_
    cases e with
    | message m =>
      obtain ⟨id, ⟨⟩⟩ := he
    | term t =>
      obtain ⟨id, ⟨⟩⟩ := he
    | _ => exact he.elim
  have hnesting : ∀ entry ∈ (napper 5).catalog.patterns, Pattern.nesting entry.2 ≤ 1 := by
    decide +kernel
  have hpaths : ∀ path, ReferencePath (napper 5).catalog (.message "cat" none) path →
      path.length ≤ 2 := by
    intro path hpath
    cases hpath with
    | root => decide
    | step hbefore hrefers =>
      obtain ⟨rfl, -⟩ := napper_refers hrefers
      cases hbefore with
      | root => exact Nat.le_refl 2
      | step _ hagain => exact absurd (napper_refers hagain).2 nofun
  have hgeneral := (affordable hplain hparsed "cat" none .empty).1 1 2
    (fun o p _ hp => hnesting _ (Catalog.mem_patterns hp)) hpaths (by decide)
  exact ⟨hplain, hparsed, hgeneral, by decide +kernel⟩

end Formatter

end Fluent
