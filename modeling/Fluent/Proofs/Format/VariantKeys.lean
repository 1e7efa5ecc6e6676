/-
# The keys of variants

A selector's value chooses a variant by its key: the first one that is the value itself, or else the
first one that is named like the number's plural category, or else the default variant.  Of keys
that are all different at most one is the value, and at most one is named like the category; so
where a variant stands does not decide whether it is chosen.

* `Level.indexAfter_eq_returned_iff` : the variant that is chosen, whatever the keys are;
* `Selection.Reorders.choice?_cases` : among different keys it is the same in every order.
-/
import Fluent.Proofs.Format.Moments
import Fluent.Proofs.Number.NumberTokens
import Fluent.Proofs.Tree.Constructors

namespace Fluent

open Resolving Grammar

/-! ## Equal numbers -/

section Numbers

open Float.Model

/-- Equal numbers are both zero, or they are the same. -/
theorem zero_or_eq_of_compare {a b : UnpackedFloat} (h : a.compare b = some .eq) :
    (∃ s s', a = .zero s ∧ b = .zero s') ∨ (a = b ∧ a ≠ .notANumber) := by
  cases a with
  | notANumber => cases h
  | infinity s =>
    cases b with
    | infinity s' => cases s <;> cases s' <;> first | exact .inr ⟨rfl, nofun⟩ | cases h
    | notANumber | zero | finite => cases s <;> cases h
  | zero s =>
    cases b with
    | zero s' => exact .inl ⟨s, s', rfl, rfl⟩
    | notANumber => cases h
    | infinity s' | finite s' => cases s' <;> cases h
  | finite s m e hm =>
    cases b with
    | notANumber => cases h
    | infinity s' => cases s <;> cases s' <;> cases h
    | zero => cases s <;> cases h
    | finite s' m' e' hm' =>
      -- finite numbers are compared by their signs, then by their exponents and significands
      have hsame : s = s' ∧ ((compare e e').then (compare m m')) = .eq := by
        cases s with
        | positive =>
          cases s' with
          | positive => exact ⟨rfl, Option.some.inj h⟩
          | negative => cases h
        | negative =>
          cases s' with
          | positive => cases h
          | negative =>
            exact ⟨rfl, Ordering.swap_eq_eq.1 (Option.some.inj h)⟩
      obtain ⟨rfl, horder⟩ := hsame
      obtain ⟨he, hm⟩ := Ordering.then_eq_eq.1 horder
      obtain rfl := Std.LawfulEqCmp.eq_of_compare he
      obtain rfl := Std.LawfulEqCmp.eq_of_compare hm
      exact .inr ⟨rfl, nofun⟩

/-- A number that is not undefined equals itself. -/
theorem compare_self_of_ne {a : UnpackedFloat} (h : a ≠ .notANumber) : a.compare a = some .eq := by
  cases a with
  | notANumber => exact absurd rfl h
  | infinity s => cases s <;> rfl
  | zero s => rfl
  | finite s m e hm =>
    have horder : ((compare e e).then (compare m m)) = .eq := by simp
    cases s with
    | positive => exact congrArg some horder
    | negative => exact congrArg (fun order => some order.swap) horder

/-- Numbers are equal if both are zero, or if they are the same and not undefined. -/
theorem compare_eq_some_eq_iff {a b : UnpackedFloat} :
    a.compare b = some .eq ↔
      (∃ s s', a = .zero s ∧ b = .zero s') ∨ (a = b ∧ a ≠ .notANumber) := by
  refine ⟨zero_or_eq_of_compare, ?_⟩
  rintro (⟨s, s', rfl, rfl⟩ | ⟨rfl, hne⟩)
  · rfl
  · exact compare_self_of_ne hne

/-- Floats are equal exactly when their exact values compare as equal. -/
theorem float_beq_iff {x y : Float} :
    (x == y) = true ↔ x.toModel.unpack.compare y.toModel.unpack = some .eq := by
  show (x.toModel.unpack.compare y.toModel.unpack == some .eq) = true ↔ _
  exact beq_iff_eq

/-- Equality of floats goes both ways. -/
theorem float_beq_comm {x y : Float} (h : (x == y) = true) : (y == x) = true := by
  rw [float_beq_iff, compare_eq_some_eq_iff] at h ⊢
  rcases h with ⟨s, s', hx, hy⟩ | ⟨heq, hne⟩
  · exact .inl ⟨s', s, hy, hx⟩
  · exact .inr ⟨heq.symm, heq ▸ hne⟩

/-- Two numbers that a third one equals are equal. -/
theorem float_beq_of_beq {x y z : Float} (hx : (x == z) = true) (hy : (y == z) = true) :
    (x == y) = true := by
  rw [float_beq_iff, compare_eq_some_eq_iff] at hx hy ⊢
  rcases hx with ⟨s, s', hx, hz⟩ | ⟨hx, hne⟩
  · rcases hy with ⟨t, t', hy, -⟩ | ⟨hy, -⟩
    · exact .inl ⟨s, t, hx, hy⟩
    · exact .inl ⟨s, s', hx, hy.trans hz⟩
  · rcases hy with ⟨t, t', hy, hz⟩ | ⟨hy, -⟩
    · exact .inl ⟨t', t, hx.trans hz, hy⟩
    · exact .inr ⟨hx.trans hy.symm, hne⟩

end Numbers

/-! ## Keys -/

/-- Names are different if they are not the same; numbers are if neither their texts nor their
values are the same. -/
def VariantKey.Differs : VariantKey → VariantKey → Prop
  | .identifier id, .identifier id' => id ≠ id'
  | .number literal, .number literal' => literal.raw ≠ literal'.raw ∧
    (literal.value.toFloat == literal'.value.toFloat) = false
  | .identifier _, .number _ | .number _, .identifier _ => True

instance : DecidableRel VariantKey.Differs
  | .identifier id, .identifier id' => inferInstanceAs (Decidable (id ≠ id'))
  | .number literal, .number literal' => inferInstanceAs (Decidable (literal.raw ≠ literal'.raw ∧
    (literal.value.toFloat == literal'.value.toFloat) = false))
  | .identifier _, .number _ | .number _, .identifier _ => inferInstanceAs (Decidable True)

/-- The key is a name, or a number with the value of its text. -/
def VariantKey.WellFormed : VariantKey → Prop
  | .identifier id => IsName id.name.toList
  | .number literal => literal.Checked

instance : DecidablePred VariantKey.WellFormed
  | .identifier id => inferInstanceAs (Decidable (IsName id.name.toList))
  | .number literal => inferInstanceAs (Decidable (NumberLiteral.ofRaw literal.raw = .ok literal))

/-- The keys are names and numbers, and no two of them are the same. -/
structure DistinctKeys (variants : List Variant) : Prop where
  wellFormed : ∀ v ∈ variants, v.key.WellFormed
  differ : variants.Pairwise fun v w => v.key.Differs w.key

namespace VariantKey

variable {key key' : VariantKey} {value : Value} {category : PluralCategory}

/-- No name is the text of a number: it starts with a letter, and the text of a number does not. -/
theorem name_ne_raw {id : Identifier} {literal : NumberLiteral} (hid : IsName id.name.toList)
    (hliteral : literal.Checked) : id.name ≠ literal.raw := by
  intro heq
  obtain ⟨token, htoken⟩ := exists_token_of_ofRaw hliteral
  obtain ⟨ch, rest, hcons, hletter⟩ := hid.cons
  obtain ⟨ch', rest', hcons', hdigit⟩ := token.isNumeral_text.cons
  rw [htoken, ← heq, hcons] at hcons'
  obtain ⟨rfl, -⟩ := List.cons.inj hcons'
  simp [isIdentifierStart_not_digit hletter] at hdigit

/-- Different keys are so in both orders. -/
theorem Differs.symm (h : key.Differs key') : key'.Differs key := by
  cases key with
  | identifier id =>
    cases key' with
    | identifier id' => exact Ne.symm h
    | number literal' => trivial
  | number literal =>
    cases key' with
    | identifier id' => trivial
    | number literal' =>
      refine ⟨h.1.symm, Bool.eq_false_iff.2 fun hsame => ?_⟩
      exact Bool.eq_false_iff.1 h.2 (float_beq_comm hsame)

/-- Different keys are not keys of the same value. -/
theorem not_differs_of_isOf (h : key.isOf value = true) (h' : key'.isOf value = true)
    (hkey : key.WellFormed) (hkey' : key'.WellFormed) : ¬key.Differs key' := by
  intro hdiffers
  cases value with
  | none => cases key <;> cases h
  | string text =>
    -- the texts of both keys are the value
    cases key with
    | identifier id =>
      have hid : id.name = text := beq_iff_eq.1 h
      cases key' with
      | identifier id' =>
        have hid' : id'.name = text := beq_iff_eq.1 h'
        exact hdiffers (congrArg Identifier.mk (hid.trans hid'.symm))
      | number literal' => exact name_ne_raw hkey hkey' (hid.trans (beq_iff_eq.1 h').symm)
    | number literal =>
      have hraw : literal.raw = text := beq_iff_eq.1 h
      cases key' with
      | identifier id' => exact name_ne_raw hkey' hkey ((beq_iff_eq.1 h').trans hraw.symm)
      | number literal' => exact hdiffers.1 (hraw.trans (beq_iff_eq.1 h').symm)
  | number n =>
    -- the values of both keys equal the number
    cases key with
    | identifier id => cases h
    | number literal =>
      cases key' with
      | identifier id' => cases h'
      | number literal' => exact Bool.eq_false_iff.1 hdiffers.2 (float_beq_of_beq h h')

/-- Different keys do not name the same category. -/
theorem not_differs_of_names (h : key.names category = true) (h' : key'.names category = true) :
    ¬key.Differs key' := by
  cases key with
  | number literal => cases h
  | identifier id =>
    cases key' with
    | number literal' => cases h'
    | identifier id' =>
      have hname : id.name = id'.name := (beq_iff_eq.1 h).trans (beq_iff_eq.1 h').symm
      exact fun hdiffers => hdiffers (congrArg Identifier.mk hname)

end VariantKey

/-! ## The variant that is chosen -/

namespace Level

variable {level : Level} {s : Selection} {result : Resolved} {index : Nat}

/-- The place of the variant for what a selector resolved to; that of the default variant if the
selector failed. -/
def ChoosesFor (level : Level) (s : Selection) : Resolved → Nat → Prop
  | .placeholder _, index => index = s.defaultIndex
  | .value v, index => Chooses level.formatter s v index

/-- The same place, found by looking for it; there is none for a number without a category. -/
def choice? (level : Level) (s : Selection) : Resolved → Option Nat
  | .placeholder _ => some s.defaultIndex
  | .value v =>
    match s.exactIndex? v with
    | some index => some index
    | none =>
      match v with
      | .number n => (level.formatter.plurals n level.formatter.locale).map fun category =>
        (s.categoryIndex? category).getD s.defaultIndex
      | _ => some s.defaultIndex

/-- The search for a variant is its choice, and breaks off where there is none. -/
theorem indexAfter_eq (level : Level) (s : Selection) (result : Resolved) :
    level.indexAfter s result = ofOption (level.choice? s result) := by
  cases result with
  | placeholder label => rfl
  | value v =>
    simp only [indexAfter, variantIndex, choice?]
    cases s.exactIndex? v with
    | some index => rfl
    | none =>
      cases v with
      | number n =>
        dsimp only
        cases level.formatter.plurals n level.formatter.locale with
        | some category => rfl
        | none => rfl
      | string text => rfl
      | none => rfl

/-- What the rules for variants choose is what the search chooses. -/
theorem ChoosesFor.choice?_eq (h : level.ChoosesFor s result index) :
    level.choice? s result = some index := by
  cases result with
  | placeholder label => exact congrArg some (Eq.symm h)
  | value v =>
    have hsome : ∀ {v i}, s.FirstKey (·.isOf v) i → s.exactIndex? v = some i :=
      Selection.findIdx?_eq_some_iff.2
    have hnone : ∀ {v}, s.NoKey (·.isOf v) → s.exactIndex? v = none :=
      Selection.findIdx?_eq_none_iff.2
    cases h with
    | exact hkey => simp only [choice?, hsome hkey]
    | @category n category index hexact hplural hkey =>
      have hindex : s.categoryIndex? category = some index := Selection.findIdx?_eq_some_iff.2 hkey
      simp only [choice?, hnone hexact, hplural, hindex, Option.map_some, Option.getD_some]
    | @noCategory n category hexact hplural hkey =>
      have hindex : s.categoryIndex? category = none := Selection.findIdx?_eq_none_iff.2 hkey
      simp only [choice?, hnone hexact, hplural, hindex, Option.map_some, Option.getD_none]
    | noNumber hexact hnumber => simp only [choice?, hnone hexact]

/-- What the search chooses is what the rules for variants choose. -/
theorem choosesFor_of_choice? (h : level.choice? s result = some index) :
    level.ChoosesFor s result index := by
  cases result with
  | placeholder label => exact (Option.some.inj h).symm
  | value v =>
    simp only [choice?] at h
    cases hi : s.exactIndex? v with
    | some i =>
      rw [hi] at h
      obtain rfl := Option.some.inj h
      exact .exact (Selection.findIdx?_eq_some_iff.1 hi)
    | none =>
      rw [hi] at h
      have hexact := Selection.findIdx?_eq_none_iff.1 hi
      cases v with
      | number n =>
        obtain ⟨category, hplural, rfl⟩ := Option.map_eq_some_iff.1 h
        cases hc : s.categoryIndex? category with
        | some i => exact .category hexact hplural (Selection.findIdx?_eq_some_iff.1 hc)
        | none => exact .noCategory hexact hplural (Selection.findIdx?_eq_none_iff.1 hc)
      | string text =>
        obtain rfl := Option.some.inj h
        exact .noNumber hexact nofun
      | none =>
        obtain rfl := Option.some.inj h
        exact .noNumber hexact nofun

/-- **The choice between any variants**: a key that is the value comes first wherever it stands,
then a key that names the number's category, then the default variant. -/
theorem indexAfter_eq_returned_iff {scope after : Scope} :
    level.indexAfter s result scope = .returned index after ↔
      after = scope ∧ level.ChoosesFor s result index := by
  rw [indexAfter_eq]
  constructor
  · intro h
    cases hi : level.choice? s result with
    | none =>
      rw [hi] at h
      cases h
    | some i =>
      rw [hi] at h
      cases h
      exact ⟨rfl, choosesFor_of_choice? hi⟩
  · rintro ⟨rfl, h⟩
    rw [h.choice?_eq]
    rfl

/-- The variant for what a selector resolved to, whose text the selection comes to. -/
def chosen (level : Level) (s : Selection) (result : Resolved) : Resolving Variant := do
  let index ← level.indexAfter s result
  .ofOption s.variants[index]?

end Level

/-! ## Variants in another order -/

/-- Keys stay distinct in another order. -/
theorem DistinctKeys.perm {variants variants' : List Variant} (hkeys : DistinctKeys variants)
    (h : variants.Perm variants') : DistinctKeys variants' where
  wellFormed v hv := hkeys.wellFormed v (h.symm.subset hv)
  differ := (h.pairwise_iff VariantKey.Differs.symm).1 hkeys.differ

/-- The second selection has the variants of the first one in another order; their keys are
different, and each of the two has one default variant. -/
structure Selection.Reorders (s s' : Selection) : Prop where
  selector : s'.selector = s.selector
  variants : s.variants.Perm s'.variants
  keys : DistinctKeys s.variants
  checked : s.Checked
  checked' : s'.Checked

namespace Selection.Reorders

/-- Selections built of the same variants, with distinct keys, reorder each other. -/
theorem of_build {selector : Expression} {variants variants' : List Variant} {s s' : Selection}
    (hs : Selection.build selector variants = .ok s)
    (hs' : Selection.build selector variants' = .ok s') (hkeys : DistinctKeys variants)
    (h : variants.Perm variants') : s.Reorders s' := by
  obtain ⟨hchecked, rfl, rfl⟩ := build_eq_ok_iff.1 hs
  obtain ⟨hchecked', hselector, rfl⟩ := build_eq_ok_iff.1 hs'
  exact ⟨hselector, h, hkeys, hchecked, hchecked'⟩

variable {s s' : Selection} {level : Level} {result : Resolved} {index : Nat}

/-- Reordering goes both ways. -/
theorem symm (h : s.Reorders s') : s'.Reorders s :=
  ⟨h.selector.symm, h.variants.symm, h.keys.perm h.variants, h.checked', h.checked⟩

/-- The default variant stays the default variant. -/
theorem exists_default (h : s.Reorders s') :
    ∃ v, s.variants[s.defaultIndex]? = some v ∧ s'.variants[s'.defaultIndex]? = some v := by
  have hv := List.getElem?_eq_getElem h.checked.index_lt
  obtain ⟨index', hv'⟩ := List.mem_iff_getElem?.1 (h.variants.subset (List.mem_of_getElem? hv))
  refine ⟨_, hv, ?_⟩
  rw [← (h.checked'.default_iff _ _ hv').1 ((h.checked.default_iff _ _ hv).2 rfl)]
  exact hv'

/-- If no key matches in one order then none does in another. -/
theorem noKey (h : s.Reorders s') {p : VariantKey → Bool} (hno : s.NoKey p) : s'.NoKey p :=
  fun v hv => hno v (h.variants.symm.subset hv)

/-- If just one of different keys can be of a kind, its variant is the first one with a key of the
kind in any order. -/
theorem exists_firstKey (h : s.Reorders s') {p : VariantKey → Bool}
    (hp : ∀ {key key' : VariantKey}, p key = true → p key' = true → key.WellFormed →
      key'.WellFormed → ¬key.Differs key') (hfirst : s.FirstKey p index) :
    ∃ index' v, s'.FirstKey p index' ∧ s.variants[index]? = some v ∧
      s'.variants[index']? = some v := by
  obtain ⟨hlt, hkey, -⟩ := hfirst
  have hmem := h.variants.subset (List.getElem_mem hlt)
  obtain ⟨index', hlt', hv'⟩ := List.mem_iff_getElem.1 hmem
  have hkeys' := h.keys.perm h.variants
  refine ⟨index', _, ⟨hlt', hv' ▸ hkey, fun i hi => ?_⟩, List.getElem?_eq_getElem hlt,
    List.getElem?_eq_some_iff.2 ⟨hlt', hv'⟩⟩
  have hdiffers := List.pairwise_iff_getElem.1 hkeys'.differ i index' (hi.trans hlt') hlt' hi
  rw [hv'] at hdiffers
  exact Bool.eq_false_iff.2 fun hpi => hp hpi hkey
    (hkeys'.wellFormed _ (List.getElem_mem _)) (hkeys'.wellFormed _ hmem) hdiffers

/-- The same variant is to be chosen. -/
theorem exists_choosesFor (h : s.Reorders s') (hi : level.ChoosesFor s result index) :
    ∃ index' v, level.ChoosesFor s' result index' ∧ s.variants[index]? = some v ∧
      s'.variants[index']? = some v := by
  obtain ⟨default, hdefault, hdefault'⟩ := h.exists_default
  cases result with
  | placeholder label =>
    obtain rfl : index = s.defaultIndex := hi
    exact ⟨_, default, rfl, hdefault, hdefault'⟩
  | value v =>
    cases hi with
    | exact hkey =>
      obtain ⟨index', v, hkey', hv⟩ := h.exists_firstKey VariantKey.not_differs_of_isOf hkey
      exact ⟨index', v, .exact hkey', hv⟩
    | category hexact hplural hkey =>
      obtain ⟨index', v, hkey', hv⟩ :=
        h.exists_firstKey (fun hn hn' _ _ => VariantKey.not_differs_of_names hn hn') hkey
      exact ⟨index', v, .category (h.noKey hexact) hplural hkey', hv⟩
    | noCategory hexact hplural hkey =>
      exact ⟨_, default, .noCategory (h.noKey hexact) hplural (h.noKey hkey), hdefault, hdefault'⟩
    | noNumber hexact hnumber =>
      exact ⟨_, default, .noNumber (h.noKey hexact) hnumber, hdefault, hdefault'⟩

/-- There is a variant to choose in both orders, and it is the same one, or in neither. -/
theorem choice?_cases (h : s.Reorders s') (level : Level) (result : Resolved) :
    (level.choice? s result = none ∧ level.choice? s' result = none) ∨
      ∃ index index' v, level.choice? s result = some index ∧
        level.choice? s' result = some index' ∧ s.variants[index]? = some v ∧
          s'.variants[index']? = some v := by
  cases hi : level.choice? s result with
  | some index =>
    obtain ⟨index', v, hi', hv⟩ := h.exists_choosesFor (Level.choosesFor_of_choice? hi)
    exact .inr ⟨index, index', v, rfl, hi'.choice?_eq, hv⟩
  | none =>
    refine .inl ⟨rfl, ?_⟩
    cases hi' : level.choice? s' result with
    | none => rfl
    | some index' =>
      obtain ⟨index, v, hindex, -⟩ := h.symm.exists_choosesFor (Level.choosesFor_of_choice? hi')
      cases hi.symm.trans hindex.choice?_eq

end Selection.Reorders

/-! ## Checking variants in another order -/

section Checking

variable {s : Selection} {variants' : List Variant}

/-- No two variants of a checked selection are its default. -/
theorem Selection.Checked.pairwise_not_isDefault (hs : s.Checked) :
    s.variants.Pairwise fun v w => ¬(v.isDefault = true ∧ w.isDefault = true) := by
  rw [List.pairwise_iff_getElem]
  rintro i j hi hj hij ⟨hv, hw⟩
  have := (hs.default_iff i _ (List.getElem?_eq_getElem hi)).1 hv
  have := (hs.default_iff j _ (List.getElem?_eq_getElem hj)).1 hw
  omega

/-- Variants of which no two are marked as default have one default variant at most. -/
theorem index_eq_of_isDefault {variants : List Variant}
    (hpairs : variants.Pairwise fun v w => ¬(v.isDefault = true ∧ w.isDefault = true)) {i j : Nat}
    {v w : Variant} (hv : variants[i]? = some v) (hw : variants[j]? = some w)
    (hvd : v.isDefault = true) (hwd : w.isDefault = true) : i = j := by
  obtain ⟨hi, rfl⟩ := List.getElem?_eq_some_iff.1 hv
  obtain ⟨hj, rfl⟩ := List.getElem?_eq_some_iff.1 hw
  rw [List.pairwise_iff_getElem] at hpairs
  rcases Nat.lt_trichotomy i j with hlt | heq | hlt
  · exact absurd ⟨hvd, hwd⟩ (hpairs i j hi hj hlt)
  · exact heq
  · exact absurd ⟨hwd, hvd⟩ (hpairs j i hj hi hlt)

/-- The checked constructor takes the variants in any order. -/
theorem Selection.Checked.exists_build (hs : s.Checked) (h : s.variants.Perm variants') :
    ∃ s', Selection.build s.selector variants' = .ok s' := by
  have hv := List.getElem?_eq_getElem hs.index_lt
  have hdefault := (hs.default_iff _ _ hv).2 rfl
  obtain ⟨index, hindex⟩ := List.mem_iff_getElem?.1 (h.subset (List.mem_of_getElem? hv))
  have hpairs : variants'.Pairwise fun v w => ¬(v.isDefault = true ∧ w.isDefault = true) :=
    (h.pairwise_iff fun hn hboth => hn hboth.symm).1 hs.pairwise_not_isDefault
  have hs' : Selection.Checked ⟨s.selector, variants', index⟩ := by
    refine ⟨hs.selector, List.ne_nil_of_mem (List.mem_of_getElem? hindex),
      (List.getElem?_eq_some_iff.1 hindex).1, fun i w hw => ⟨fun hw' => ?_, ?_⟩⟩
    · exact index_eq_of_isDefault hpairs hw hindex hw' hdefault
    · rintro rfl
      obtain rfl := Option.some.inj (hindex.symm.trans hw)
      exact hdefault
  exact ⟨_, build_eq_ok_iff.2 ⟨hs', rfl, rfl⟩⟩

end Checking

end Fluent
