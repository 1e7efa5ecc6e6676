/-
# What checked constructors let through

A literal is checked if its value is that of its text, a selection if just one of its variants is
the default and its selector may be selected on, and call arguments if no name is given twice.  The
checked constructors build what is checked, and nothing else.

* `Selection.build_eq_ok_iff`, `CallArguments.build_eq_ok_iff` : what the constructors build.
-/
import Fluent.Tree.Checked

namespace Fluent

/-! ## Checked parts -/

/-- The value is that of the text. -/
def StringLiteral.Checked (s : StringLiteral) : Prop :=
  StringLiteral.ofRaw s.raw = .ok s

/-- The value is that of the text. -/
def NumberLiteral.Checked (n : NumberLiteral) : Prop :=
  NumberLiteral.ofRaw n.raw = .ok n

/-- A literal, a variable, a call of a function or an attribute of a term. -/
def Expression.IsSelector : Expression → Prop
  | .string _ | .number _ | .var _ | .function .. | .term _ (some _) _ => True
  | .term _ none _ | .message .. | .select _ | .placeable _ => False

/-- There are variants, the variant at the stored place is the only default, and the selector may be
selected on. -/
structure Selection.Checked (s : Selection) : Prop where
  selector : s.selector.IsSelector
  variants : s.variants ≠ []
  index_lt : s.defaultIndex < s.variants.length
  default_iff : ∀ i v, s.variants[i]? = some v → (v.isDefault = true ↔ i = s.defaultIndex)

/-- No argument is given twice by name. -/
def CallArguments.Checked (a : CallArguments) : Prop :=
  (a.named.map NamedArgument.name).Nodup

/-! ## Selections -/

/-- No fault is found exactly in the expressions that may select. -/
theorem selectorFault?_eq_none_iff {e : Expression} :
    e.selectorFault? = none ↔ e.IsSelector := by
  cases e with
  | term id attr arguments => cases attr <;> simp [Expression.selectorFault?, Expression.IsSelector]
  | _ => simp [Expression.selectorFault?, Expression.IsSelector]

/-- The default places are those of the variants marked so. -/
theorem mem_defaultIndices_iff {variants : List Variant} {i : Nat} :
    i ∈ defaultIndices variants ↔ ∃ v, variants[i]? = some v ∧ v.isDefault = true := by
  simp only [defaultIndices, List.mem_map, List.mem_filter, Prod.exists,
    List.mem_zipIdx_iff_getElem?]
  constructor
  · rintro ⟨v, j, ⟨hv, hd⟩, rfl⟩
    exact ⟨v, hv, hd⟩
  · rintro ⟨v, hv, hd⟩
    exact ⟨v, i, ⟨hv, hd⟩, rfl⟩

/-- No place of a default is listed twice. -/
theorem nodup_defaultIndices (variants : List Variant) : (defaultIndices variants).Nodup := by
  have hplaces : (variants.zipIdx.map (·.2)).Nodup := by
    rw [List.zipIdx_map_snd]
    exact List.nodup_range'
  exact hplaces.sublist (List.filter_sublist.map _)

/-- Just one variant is marked as default if its place is the only one. -/
theorem defaultIndices_eq_singleton_iff {variants : List Variant} {index : Nat} :
    defaultIndices variants = [index] ↔ index < variants.length ∧
      ∀ i v, variants[i]? = some v → (v.isDefault = true ↔ i = index) := by
  constructor
  · intro h
    have hmem : ∀ i, i ∈ defaultIndices variants ↔ i = index := by simp [h]
    obtain ⟨v, hv, -⟩ := mem_defaultIndices_iff.1 ((hmem index).2 rfl)
    refine ⟨(List.getElem?_eq_some_iff.1 hv).1, fun i w hw => ?_⟩
    rw [← hmem i, mem_defaultIndices_iff]
    exact ⟨fun hd => ⟨w, hw, hd⟩, fun ⟨w', hw', hd⟩ => Option.some.inj (hw.symm.trans hw') ▸ hd⟩
  · rintro ⟨hlt, hdefault⟩
    have hmem : ∀ i, i ∈ defaultIndices variants ↔ i ∈ [index] := by
      intro i
      rw [mem_defaultIndices_iff, List.mem_singleton]
      constructor
      · rintro ⟨v, hv, hd⟩
        exact (hdefault i v hv).1 hd
      · rintro rfl
        have hv := List.getElem?_eq_getElem hlt
        exact ⟨_, hv, (hdefault i _ hv).2 rfl⟩
    -- both lists hold each of their places once
    have hperm := (List.perm_ext_iff_of_nodup (nodup_defaultIndices variants)
      (by simp)).2 hmem
    exact List.perm_singleton.1 hperm

/-- What the checked constructor makes of a selector and variants. -/
theorem Selection.build_eq_ok_iff {selector : Expression} {variants : List Variant}
    {s : Selection} :
    Selection.build selector variants = .ok s ↔
      s.Checked ∧ s.selector = selector ∧ s.variants = variants := by
  constructor
  · intro h
    unfold Selection.build at h
    split at h
    · cases h
    rename_i hfault
    split at h
    · cases h
    rename_i hne
    split at h
    · cases h
    · rename_i index hindices
      obtain rfl := Except.ok.inj h
      obtain ⟨hlt, hdefault⟩ := defaultIndices_eq_singleton_iff.1 hindices
      exact ⟨⟨selectorFault?_eq_none_iff.1 hfault, by simpa using hne, hlt, hdefault⟩, rfl, rfl⟩
    · cases h
  · rintro ⟨hchecked, rfl, rfl⟩
    have hindices := defaultIndices_eq_singleton_iff.2 ⟨hchecked.index_lt, hchecked.default_iff⟩
    rw [Selection.build, selectorFault?_eq_none_iff.2 hchecked.selector]
    dsimp only
    rw [if_neg (by simpa using hchecked.variants), hindices]
    cases s
    rfl

/-! ## Call arguments -/

/-- No repetition is found exactly when the names are distinct and none of them was seen before. -/
theorem repeatedName?_eq_none_iff {seen : List Identifier} {named : List NamedArgument} :
    repeatedName? seen named = none ↔
      (named.map NamedArgument.name).Nodup ∧ ∀ a ∈ named, a.name ∉ seen := by
  induction named generalizing seen with
  | nil => simp [repeatedName?]
  | cons a rest ih =>
    rw [repeatedName?]
    by_cases ha : a.name ∈ seen
    · simp [ha]
    · rw [if_neg ha, ih, List.map_cons, List.nodup_cons]
      simp only [List.mem_cons, not_or, forall_eq_or_imp, List.mem_map, not_exists, not_and]
      constructor
      · rintro ⟨hnodup, hseen⟩
        exact ⟨⟨fun x hx => (hseen x hx).1, hnodup⟩, ha, fun x hx => (hseen x hx).2⟩
      · rintro ⟨⟨hfirst, hnodup⟩, -, hseen⟩
        exact ⟨hnodup, fun x hx => ⟨hfirst x hx, hseen x hx⟩⟩

/-- Call arguments pass their check exactly when no name is given twice. -/
theorem CallArguments.checked_iff {a : CallArguments} :
    a.Checked ↔ repeatedName? [] a.named = none := by
  rw [repeatedName?_eq_none_iff, CallArguments.Checked]
  simp

/-- What the checked constructor makes of the arguments given by position and by name. -/
theorem CallArguments.build_eq_ok_iff {positional : List Expression} {named : List NamedArgument}
    {a : CallArguments} :
    CallArguments.build positional named = .ok a ↔ a.Checked ∧ a = ⟨positional, named⟩ := by
  unfold CallArguments.build
  constructor
  · intro h
    split at h
    · cases h
    · rename_i hnone
      obtain rfl := Except.ok.inj h
      exact ⟨CallArguments.checked_iff.2 hnone, rfl⟩
  · rintro ⟨hchecked, rfl⟩
    rw [CallArguments.checked_iff.1 hchecked]

end Fluent
