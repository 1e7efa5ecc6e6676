/-
# Decoding the parts of a value

How decoders of whole values follow from those of their parts, in both directions: a field or an
item that can be decoded is decoded in its place, and what was decoded came from a smaller value.

* `Json.HasFields` : the fields of an object, whatever else it holds;
* `Json.HasFields.part`, `Json.decodeList_cons` : fields and lists are decoded part by part;
* `Json.demand_part_ok`, `Json.join_part_ok`, `Json.demand_list_ok` : what was decoded from the parts
  of a record and from lists among them;
* `Json.decodeTag_tagged` : a tagged object shows its tag.
-/
import Fluent.Grammar.Failure
import Fluent.Json.Decoding
import Fluent.Tree.Encode

namespace Fluent

variable {ε α β : Type}

/-! ## Steps of decoding -/

/-- What is demanded is answered exactly when it is there. -/
theorem Decoding.demand_eq_ok {o : Option α} {a : α} :
    (Decoding.demand o : Decoding ε α) = .ok a ↔ o = some a := by
  cases o <;> simp [Decoding.demand, Decoding.wrongShape]

/-- A checked rule is answered exactly when it holds. -/
theorem Decoding.ofRule_eq_ok {x : Except ε α} {a : α} :
    Decoding.ofRule x = .ok a ↔ x = .ok a := by
  cases x <;> simp [Decoding.ofRule]

/-- A mapped answer is the map of an answer. -/
theorem map_eq_ok {x : Except ε α} {f : α → β} {b : β} :
    f <$> x = .ok b ↔ ∃ a, x = .ok a ∧ f a = b := by
  cases x <;> simp [Functor.map, Except.map]

/-- What is made of a list came from its items. -/
theorem mapM_eq_ok {f : α → Except ε β} {xs : List α} {ys : List β} (h : xs.mapM f = .ok ys) :
    ∀ y ∈ ys, ∃ x ∈ xs, f x = .ok y := by
  induction xs generalizing ys with
  | nil =>
    obtain rfl := Except.ok.inj h
    simp
  | cons x xs ih =>
    rw [List.mapM_cons] at h
    obtain ⟨first, hfirst, h⟩ := bind_eq_ok.1 h
    obtain ⟨rest, hrest, h⟩ := bind_eq_ok.1 h
    obtain rfl := Except.ok.inj h
    intro y hy
    rcases List.mem_cons.1 hy with rfl | hy
    · exact ⟨x, List.mem_cons_self, hfirst⟩
    · obtain ⟨x', hx', hy'⟩ := ih hrest y hy
      exact ⟨x', List.mem_cons_of_mem _ hx', hy'⟩

namespace Json

variable {j v : Json} {name : String} {decode : Json → Decoding ε α}

/-! ## Records -/

section Records

variable {place : Nat}

/-- A part that is there is what is decoded from it. -/
theorem part_of_some (h : j.part? place name = some v) :
    j.part place name decode = ⟨place, some <$> decode v⟩ := by
  unfold part partWith
  congr 1
  split
  · rename_i w hw
    obtain rfl := Option.some.inj (hw.symm.trans h)
    rfl
  · rename_i hnone
    rw [h] at hnone
    cases hnone

/-- A part may be missing. -/
theorem part_of_none (h : j.part? place name = none) :
    j.part place name decode = ⟨place, .ok none⟩ := by
  unfold part partWith
  congr 1
  split
  · rename_i hsome
    rw [h] at hsome
    cases hsome
  · rfl

/-- What was decoded from a part came from a smaller value. -/
theorem result_part_ok {a : α} (h : (j.part place name decode).result = .ok (some a)) :
    ∃ v, sizeOf v < sizeOf j ∧ decode v = .ok a := by
  cases hpart : j.part? place name with
  | none =>
    rw [part_of_none hpart] at h
    cases h
  | some v =>
    rw [part_of_some hpart] at h
    obtain ⟨b, hb, hsome⟩ := map_eq_ok.1 h
    obtain rfl := Option.some.inj hsome
    exact ⟨v, sizeOf_lt_of_part? hpart, hb⟩

/-- So did what was decoded from a part that must be there. -/
theorem demand_part_ok {a : α} (h : (j.part place name decode).demand = .ok a) :
    ∃ v, sizeOf v < sizeOf j ∧ decode v = .ok a := by
  obtain ⟨o, hresult, ho⟩ := bind_eq_ok.1 h
  obtain rfl := Decoding.demand_eq_ok.1 ho
  exact result_part_ok hresult

/-- So did what was decoded from a part that may be missing, unless it was. -/
theorem getD_part_ok {a otherwise : α}
    (h : (j.part place name decode).getD otherwise = .ok a) :
    a = otherwise ∨ ∃ v, sizeOf v < sizeOf j ∧ decode v = .ok a := by
  obtain ⟨o, hresult, rfl⟩ := map_eq_ok.1 h
  cases o with
  | none => exact .inl rfl
  | some a => exact .inr (result_part_ok hresult)

/-- So did what was decoded from a part that may be missing or null. -/
theorem join_part_ok {a : α}
    (h : (j.part place name (decodeOption decode)).join = .ok (some a)) :
    ∃ v, sizeOf v < sizeOf j ∧ decode v = .ok a := by
  obtain ⟨o, hresult, ho⟩ := map_eq_ok.1 h
  obtain rfl : o = some (some a) := Option.join_eq_some_iff.1 ho
  obtain ⟨v, hlt, hv⟩ := result_part_ok hresult
  refine ⟨v, hlt, ?_⟩
  unfold decodeOption unlessNull at hv
  split at hv
  · cases hv
  · obtain ⟨b, hb, hsome⟩ := map_eq_ok.1 hv
    obtain rfl := Option.some.inj hsome
    exact hb

end Records

/-- The value is an object with these fields, and maybe others. -/
structure HasFields (j : Json) (fields : List (String × Json)) : Prop where
  object : ∃ all, j = .object all
  field : ∀ name v, fields.lookup name = some v → j.field? name = some v

/-- An object has its own fields. -/
theorem hasFields_object (fields : List (String × Json)) : (object fields).HasFields fields :=
  ⟨⟨fields, rfl⟩, fun _ _ h => h⟩

/-- A tagged object has its fields, if none of them takes the place of the tag. -/
theorem hasFields_tagged (type : String) (fields : List (String × Json))
    (h : fields.lookup "type" = none) : (tagged type fields).HasFields fields := by
  refine ⟨⟨_, rfl⟩, fun name v hv => ?_⟩
  show List.lookup name (("type", .string type) :: fields) = some v
  rw [List.lookup_cons]
  split
  · rename_i hname
    rw [eq_of_beq hname, h] at hv
    cases hv
  · exact hv

/-- A field that can be decoded is decoded. -/
theorem HasFields.part {fields : List (String × Json)} (hj : j.HasFields fields) {place : Nat}
    {a : α} (name : String) (hv : fields.lookup name = some v)
    (ha : decode v = .ok a) : j.part place name decode = ⟨place, .ok (some a)⟩ := by
  obtain ⟨all, rfl⟩ := hj.object
  have hpart : (Json.object all).part? place name = some v := hj.field name v hv
  rw [part_of_some hpart, ha]
  rfl

/-! ## Lists, options and plain values -/

/-- An array is decoded member by member. -/
theorem decodeList_array (items : List Json) :
    decodeList decode (.array items) = items.mapM decode := by
  have hval : items.attach.map Subtype.val = items := List.attach_map_subtype_val items
  show items.attach.mapM (decode ∘ Subtype.val) = items.mapM decode
  rw [← List.mapM_map (f := Subtype.val) (g := decode), hval]

/-- Lists are decoded item by item. -/
theorem decodeList_cons {vs : List Json} {a : α} {as : List α} (ha : decode v = .ok a)
    (has : decodeList decode (.array vs) = .ok as) :
    decodeList decode (.array (v :: vs)) = .ok (a :: as) := by
  rw [decodeList_array] at has ⊢
  rw [List.mapM_cons, ha, has]
  rfl

/-- A list whose items are decoded back is decoded back. -/
theorem decodeList_map {encode : α → Json} {as : List α}
    (h : ∀ a ∈ as, decode (encode a) = .ok a) :
    decodeList decode (.array (as.map encode)) = .ok as := by
  induction as with
  | nil => rfl
  | cons a as ih =>
    exact decodeList_cons (h a List.mem_cons_self)
      (ih fun x hx => h x (List.mem_cons_of_mem _ hx))

/-- What was decoded from a list came from smaller values. -/
theorem decodeList_ok {as : List α} (h : decodeList decode j = .ok as) :
    ∀ a ∈ as, ∃ v, sizeOf v < sizeOf j ∧ decode v = .ok a := by
  cases j with
  | array items =>
    rw [decodeList_array] at h
    intro a ha
    obtain ⟨v, hv, hdecode⟩ := mapM_eq_ok h a ha
    exact ⟨v, sizeOf_lt_of_mem hv, hdecode⟩
  | _ => cases h

/-- So did what was decoded from a list that must be there. -/
theorem demand_list_ok {place : Nat} {as : List α}
    (h : (j.part place name (decodeList decode)).demand = .ok as) :
    ∀ a ∈ as, ∃ v, sizeOf v < sizeOf j ∧ decode v = .ok a := by
  obtain ⟨list, hlist, hdecode⟩ := demand_part_ok h
  intro a ha
  obtain ⟨v, hv, hitem⟩ := decodeList_ok hdecode a ha
  exact ⟨v, Nat.lt_trans hv hlist, hitem⟩

/-- So did what was decoded from a list that may be missing. -/
theorem getD_list_ok {place : Nat} {as : List α}
    (h : (j.part place name (decodeList decode)).getD [] = .ok as) :
    ∀ a ∈ as, ∃ v, sizeOf v < sizeOf j ∧ decode v = .ok a := by
  intro a ha
  rcases getD_part_ok h with rfl | ⟨list, hlist, hdecode⟩
  · cases ha
  · obtain ⟨v, hv, hitem⟩ := decodeList_ok hdecode a ha
    exact ⟨v, Nat.lt_trans hv hlist, hitem⟩

/-- A value that is not null is decoded as one that is there. -/
theorem decodeOption_of_ne_null {a : α} (hv : v ≠ .null) (ha : decode v = .ok a) :
    decodeOption decode v = .ok (some a) := by
  unfold decodeOption unlessNull
  split
  · exact absurd rfl hv
  · rw [ha]
    rfl

/-- What may be missing is decoded back if it is not written as null. -/
theorem decodeOption_ofOption {encode : α → Json} {o : Option α}
    (h : ∀ a, o = some a → encode a ≠ .null ∧ decode (encode a) = .ok a) :
    decodeOption decode (.ofOption encode o) = .ok o := by
  cases o with
  | none => rfl
  | some a => exact decodeOption_of_ne_null (h a rfl).1 (h a rfl).2

/-- A string is decoded as itself. -/
theorem decodeString_string (s : String) : (decodeString (.string s) : Decoding ε String) = .ok s :=
  rfl

/-- A Boolean is decoded as itself. -/
theorem decodeBool_bool (b : Bool) : (decodeBool (.bool b) : Decoding ε Bool) = .ok b :=
  rfl

/-- A number below the bound of the type is decoded as itself. -/
theorem decodeNat_ofNat {n : Nat} (h : n < UInt64.size) :
    (decodeNat (ofNat n) : Decoding ε Nat) = .ok n := by
  have hbound : (0 : Int) ≤ n ∧ (n : Int) < UInt64.size := ⟨Int.natCast_nonneg n, by omega⟩
  rw [ofNat, decodeNat, if_pos hbound, Int.toNat_natCast]

/-- A decoded number lies below the bound of its type. -/
theorem lt_of_decodeNat {n : Nat} (h : (decodeNat j : Decoding ε Nat) = .ok n) :
    n < UInt64.size := by
  unfold decodeNat at h
  split at h
  · split at h
    · rename_i hbound
      obtain rfl := Except.ok.inj h
      omega
    · cases h
  · cases h

/-! ## Tags -/

/-- An object keeps its fields without its tag. -/
theorem untagged_tagged (type : String) (fields : List (String × Json)) :
    (tagged type fields).untagged = tagged type fields :=
  rfl

/-- A tagged object shows its tag, wherever it stands. -/
theorem decodeTag_tagged (tags : List String) (place : TagPlace) (type : String)
    (fields : List (String × Json)) :
    (decodeTag tags place (tagged type fields) : Decoding ε String) = .ok type := by
  have htype : (tagged type fields).part? 0 "type" = some (.string type) := by
    show List.lookup "type" (("type", .string type) :: fields) = _
    rw [List.lookup_cons_self]
  unfold decodeTag
  rw [htype]

/-- So the tag tells at once how to go on. -/
theorem decodeTag_tagged_bind (tags : List String) (place : TagPlace) (type : String)
    (fields : List (String × Json)) (next : String → Decoding ε α) :
    (decodeTag tags place (tagged type fields) >>= next) = next type := by
  rw [decodeTag_tagged]
  rfl

end Json

end Fluent
