/-
# Whatever is decoded is checked

Whatever is decoded from a JSON value keeps the rules of the checked constructors, however deep it
lies: no part of a tree gets past them.

* `StringLiteral.checked_of_decode`, `NumberLiteral.checked_of_decode` : literals are those of their
  texts, whatever values were given with them;
* `Checks` : everything below a value is checked, and `checks` : so it is below every value;
* `Resource.keeps_of_decode` : a decoded resource keeps the rules.
-/
import Fluent.Proofs.Tree.DecodeEncode

namespace Fluent

open Json (decodeList TagPlace demand_part_ok join_part_ok demand_list_ok getD_list_ok
  lt_of_decodeNat)

variable {j : Json} {place : TagPlace}

/-! ## Leaves -/

/-- A decoded string literal passes its check: the decoder builds it from its raw text. -/
theorem StringLiteral.checked_of_decode {s : StringLiteral}
    (h : StringLiteral.decode j = .ok s) : s.Checked := by
  obtain ⟨-, -, h⟩ := bind_eq_ok.1 h
  obtain ⟨text, -, h⟩ := bind_eq_ok.1 h
  have hraw := Decoding.ofRule_eq_ok.1 h
  have hagain := hraw
  unfold StringLiteral.ofRaw at hraw
  split at hraw
  · obtain rfl := Except.ok.inj hraw
    exact hagain
  · cases hraw

/-- A decoded number literal passes its check: the decoder builds it from its raw text. -/
theorem NumberLiteral.checked_of_decode {n : NumberLiteral}
    (h : NumberLiteral.decode j = .ok n) : n.Checked := by
  obtain ⟨-, -, h⟩ := bind_eq_ok.1 h
  obtain ⟨text, -, h⟩ := bind_eq_ok.1 h
  obtain ⟨value, -, h⟩ := bind_eq_ok.1 h
  have hraw := Decoding.ofRule_eq_ok.1 h
  obtain ⟨literal, hliteral, hraw⟩ := bind_eq_ok.1 hraw
  -- a value that was given is only compared
  obtain rfl : literal = n := by
    split at hraw
    · exact Except.ok.inj hraw
    · split at hraw
      · exact Except.ok.inj hraw
      · cases hraw
  have hagain := hliteral
  unfold NumberLiteral.ofRaw at hliteral
  split at hliteral
  · cases hliteral
  · split at hliteral
    · obtain rfl := Except.ok.inj hliteral
      exact hagain
    · cases hliteral

/-- A decoded literal passes its check. -/
theorem Literal.checked_of_decode {l : Literal} (h : Literal.decode place j = .ok l) :
    l.Checked := by
  obtain ⟨tag, -, h⟩ := bind_eq_ok.1 h
  split at h
  · obtain ⟨s, hs, rfl⟩ := map_eq_ok.1 h
    exact StringLiteral.checked_of_decode hs
  · obtain ⟨n, hn, rfl⟩ := map_eq_ok.1 h
    exact NumberLiteral.checked_of_decode hn
  · cases h

theorem NamedArgument.keeps_of_decode {a : NamedArgument}
    (h : NamedArgument.decode place j = .ok a) : a.Keeps .checked := by
  obtain ⟨-, -, h⟩ := bind_eq_ok.1 h
  obtain ⟨name, -, h⟩ := bind_eq_ok.1 h
  obtain ⟨value, hvalue, h⟩ := bind_eq_ok.1 h
  obtain rfl := Except.ok.inj h
  obtain ⟨v, -, hv⟩ := demand_part_ok hvalue
  exact ⟨trivial, Literal.checked_of_decode hv⟩

theorem VariantKey.keeps_of_decode {key : VariantKey} (h : VariantKey.decode place j = .ok key) :
    key.Keeps .checked := by
  obtain ⟨tag, -, h⟩ := bind_eq_ok.1 h
  split at h
  · obtain ⟨id, -, rfl⟩ := map_eq_ok.1 h
    trivial
  · obtain ⟨n, hn, rfl⟩ := map_eq_ok.1 h
    exact NumberLiteral.checked_of_decode hn
  · cases h

/-- The rules of decoded trees ask nothing of references. -/
theorem TreeRules.reference_checked (id : Identifier) (attr : Option Identifier) :
    TreeRules.checked.Reference id attr :=
  ⟨trivial, fun _ _ => trivial⟩

/-! ## Expressions -/

/-- Whatever is decoded from the value as a part of a pattern keeps the rules. -/
structure Checks (j : Json) : Prop where
  expression : ∀ place e, Expression.decode place j = .ok e → e.Keeps .checked
  arguments : ∀ place a, CallArguments.decode place j = .ok a → a.Keeps .checked
  variant : ∀ place v, Variant.decode place j = .ok v → v.Keeps .checked
  pattern : ∀ place p, Pattern.decode place j = .ok p → Pattern.Keeps .checked p
  element : ∀ place x, PatternElement.decode place j = .ok x → x.Keeps .checked

section Parts

variable (below : ∀ v, sizeOf v < sizeOf j → Checks v)

include below

/-- A decoded expression keeps the rules, by induction on the value. -/
theorem Expression.keeps_of_decode {e : Expression} (h : Expression.decode place j = .ok e) :
    e.Keeps .checked := by
  -- the parts are smaller than the value, with or without its tag
  have hbelow : ∀ v, sizeOf v < sizeOf j.untagged → Checks v :=
    fun v hv => below v (Nat.lt_of_lt_of_le hv j.sizeOf_untagged_le)
  rw [Expression.decode_eq] at h
  obtain ⟨tag, -, h⟩ := bind_eq_ok.1 h
  split at h
  · obtain ⟨s, hs, rfl⟩ := map_eq_ok.1 h
    exact StringLiteral.checked_of_decode hs
  · obtain ⟨n, hn, rfl⟩ := map_eq_ok.1 h
    exact NumberLiteral.checked_of_decode hn
  · obtain ⟨-, -, h⟩ := bind_eq_ok.1 h
    obtain ⟨id, -, h⟩ := bind_eq_ok.1 h
    obtain rfl := Except.ok.inj h
    trivial
  · obtain ⟨-, -, h⟩ := bind_eq_ok.1 h
    obtain ⟨id, -, h⟩ := bind_eq_ok.1 h
    obtain ⟨attr, -, h⟩ := bind_eq_ok.1 h
    obtain rfl := Except.ok.inj h
    exact TreeRules.reference_checked _ _
  · obtain ⟨-, -, h⟩ := bind_eq_ok.1 h
    obtain ⟨id, -, h⟩ := bind_eq_ok.1 h
    obtain ⟨attr, -, h⟩ := bind_eq_ok.1 h
    obtain ⟨arguments, hargs, h⟩ := bind_eq_ok.1 h
    obtain rfl := Except.ok.inj h
    cases arguments with
    | none => exact TreeRules.reference_checked _ _
    | some a =>
      obtain ⟨v, hlt, hv⟩ := join_part_ok hargs
      exact ⟨TreeRules.reference_checked _ _, (hbelow v hlt).arguments _ a hv⟩
  · obtain ⟨-, -, h⟩ := bind_eq_ok.1 h
    obtain ⟨id, -, h⟩ := bind_eq_ok.1 h
    obtain ⟨a, ha, h⟩ := bind_eq_ok.1 h
    obtain rfl := Except.ok.inj h
    obtain ⟨v, hlt, hv⟩ := demand_part_ok ha
    exact ⟨trivial, (hbelow v hlt).arguments _ a hv⟩
  · obtain ⟨-, -, h⟩ := bind_eq_ok.1 h
    obtain ⟨e, he, h⟩ := bind_eq_ok.1 h
    obtain ⟨list, hlist, h⟩ := bind_eq_ok.1 h
    obtain ⟨s, hs, rfl⟩ := map_eq_ok.1 h
    obtain ⟨hchecked, rfl, rfl⟩ := Selection.build_eq_ok_iff.1 (Decoding.ofRule_eq_ok.1 hs)
    obtain ⟨v, hlt, hv⟩ := demand_part_ok he
    refine Selection.keeps_iff.2 ⟨hchecked, (hbelow v hlt).expression _ _ hv, fun x hx => ?_⟩
    obtain ⟨u, hlt', hu⟩ := demand_list_ok hlist x hx
    exact (hbelow u hlt').variant _ x hu
  · obtain ⟨-, -, h⟩ := bind_eq_ok.1 h
    obtain ⟨e, he, h⟩ := bind_eq_ok.1 h
    obtain rfl := Except.ok.inj h
    obtain ⟨v, hlt, hv⟩ := demand_part_ok he
    exact ⟨trivial, (hbelow v hlt).expression _ e hv⟩
  · cases h

/-- Decoded call arguments keep the rules: no name is given twice. -/
theorem CallArguments.keeps_of_decode {a : CallArguments}
    (h : CallArguments.decode place j = .ok a) : a.Keeps .checked := by
  rw [CallArguments.decode_eq] at h
  obtain ⟨-, -, h⟩ := bind_eq_ok.1 h
  obtain ⟨positional, hpos, h⟩ := bind_eq_ok.1 h
  obtain ⟨named, hnamed, h⟩ := bind_eq_ok.1 h
  obtain ⟨hchecked, rfl⟩ := CallArguments.build_eq_ok_iff.1 (Decoding.ofRule_eq_ok.1 h)
  refine CallArguments.keeps_iff.2 ⟨hchecked, fun e he => ?_, fun given hgiven => ?_⟩
  · obtain ⟨v, hlt, hv⟩ := getD_list_ok hpos e he
    exact (below v hlt).expression _ e hv
  · obtain ⟨v, -, hv⟩ := getD_list_ok hnamed given hgiven
    exact NamedArgument.keeps_of_decode hv

theorem Variant.keeps_of_decode {x : Variant} (h : Variant.decode place j = .ok x) :
    x.Keeps .checked := by
  rw [Variant.decode_eq] at h
  obtain ⟨-, -, h⟩ := bind_eq_ok.1 h
  obtain ⟨key, hkey, h⟩ := bind_eq_ok.1 h
  obtain ⟨value, hvalue, h⟩ := bind_eq_ok.1 h
  obtain ⟨mark, -, h⟩ := bind_eq_ok.1 h
  obtain rfl := Except.ok.inj h
  obtain ⟨u, -, hu⟩ := demand_part_ok hkey
  obtain ⟨v, hlt, hv⟩ := demand_part_ok hvalue
  have hpattern := (below v hlt).pattern _ value hv
  exact Variant.keeps_iff.2 ⟨VariantKey.keeps_of_decode hu, trivial, hpattern.2⟩

theorem Pattern.keeps_of_decode {p : Pattern} (h : Pattern.decode place j = .ok p) :
    Pattern.Keeps .checked p := by
  rw [Pattern.decode_eq] at h
  obtain ⟨-, -, h⟩ := bind_eq_ok.1 h
  refine ⟨trivial, fun x hx => ?_⟩
  obtain ⟨v, hlt, hv⟩ := demand_list_ok h x hx
  exact (below v hlt).element _ x hv

theorem PatternElement.keeps_of_decode {x : PatternElement}
    (h : PatternElement.decode place j = .ok x) : x.Keeps .checked := by
  rw [PatternElement.decode_eq] at h
  obtain ⟨tag, -, h⟩ := bind_eq_ok.1 h
  split at h
  · obtain ⟨-, -, h⟩ := bind_eq_ok.1 h
    obtain ⟨text, -, h⟩ := bind_eq_ok.1 h
    obtain rfl := Except.ok.inj h
    trivial
  · obtain ⟨-, -, h⟩ := bind_eq_ok.1 h
    obtain ⟨e, he, h⟩ := bind_eq_ok.1 h
    obtain rfl := Except.ok.inj h
    obtain ⟨v, hlt, hv⟩ := demand_part_ok he
    exact ⟨trivial, (below v (Nat.lt_of_lt_of_le hlt j.sizeOf_untagged_le)).expression _ e hv⟩
  · cases h

end Parts

/-- **Whatever is decoded as a part of a pattern keeps the rules**, by induction on the size of the
value that it is decoded from. -/
theorem checks (j : Json) : Checks j :=
  have below : ∀ v, sizeOf v < sizeOf j → Checks v := fun v _ => checks v
  { expression := fun _ _ h => Expression.keeps_of_decode below h
    arguments := fun _ _ h => CallArguments.keeps_of_decode below h
    variant := fun _ _ h => Variant.keeps_of_decode below h
    pattern := fun _ _ h => Pattern.keeps_of_decode below h
    element := fun _ _ h => PatternElement.keeps_of_decode below h }
termination_by sizeOf j

/-! ## Entries -/

theorem Attribute.keeps_of_decode {a : Attribute} (h : Attribute.decode j = .ok a) :
    a.Keeps .checked := by
  obtain ⟨-, -, h⟩ := bind_eq_ok.1 h
  obtain ⟨id, -, h⟩ := bind_eq_ok.1 h
  obtain ⟨value, hvalue, h⟩ := bind_eq_ok.1 h
  obtain rfl := Except.ok.inj h
  obtain ⟨v, -, hv⟩ := demand_part_ok hvalue
  exact ⟨trivial, (checks v).pattern _ _ hv⟩

/-- Decoded attributes keep the rules. -/
theorem attributes_keep {place : Nat} {list : List Attribute}
    (h : (j.part place "attributes" (decodeList Attribute.decode)).demand = .ok list) :
    ∀ a ∈ list, a.Keeps .checked := by
  intro a ha
  obtain ⟨v, -, hv⟩ := demand_list_ok h a ha
  exact Attribute.keeps_of_decode hv

theorem Message.keeps_of_decode {m : Message} (h : Message.decode j = .ok m) :
    m.Keeps .checked := by
  obtain ⟨-, -, h⟩ := bind_eq_ok.1 h
  obtain ⟨id, -, h⟩ := bind_eq_ok.1 h
  obtain ⟨value, hvalue, h⟩ := bind_eq_ok.1 h
  obtain ⟨list, hlist, h⟩ := bind_eq_ok.1 h
  obtain ⟨comment, -, h⟩ := bind_eq_ok.1 h
  obtain rfl := Except.ok.inj h
  refine ⟨trivial, fun p hp => ?_, attributes_keep hlist, trivial⟩
  obtain rfl : value = some p := hp
  obtain ⟨v, -, hv⟩ := join_part_ok hvalue
  exact (checks v).pattern _ _ hv

theorem Term.keeps_of_decode {t : Term} (h : Term.decode j = .ok t) : t.Keeps .checked := by
  obtain ⟨-, -, h⟩ := bind_eq_ok.1 h
  obtain ⟨id, -, h⟩ := bind_eq_ok.1 h
  obtain ⟨value, hvalue, h⟩ := bind_eq_ok.1 h
  obtain ⟨list, hlist, h⟩ := bind_eq_ok.1 h
  obtain ⟨comment, -, h⟩ := bind_eq_ok.1 h
  obtain rfl := Except.ok.inj h
  obtain ⟨v, -, hv⟩ := demand_part_ok hvalue
  exact ⟨trivial, (checks v).pattern _ _ hv, attributes_keep hlist⟩

/-- The ends of a decoded span fit into their type. -/
theorem Span.checked_of_decode {s : Span} (h : Span.decode j = .ok s) :
    TreeRules.checked.span s := by
  obtain ⟨-, -, h⟩ := bind_eq_ok.1 h
  obtain ⟨start, hstart, h⟩ := bind_eq_ok.1 h
  obtain ⟨stop, hstop, h⟩ := bind_eq_ok.1 h
  obtain rfl := Except.ok.inj h
  obtain ⟨v, -, hv⟩ := demand_part_ok hstart
  obtain ⟨w, -, hw⟩ := demand_part_ok hstop
  exact ⟨lt_of_decodeNat hv, lt_of_decodeNat hw⟩

/-- The span of a decoded annotation passes its check. -/
theorem Annotation.checked_of_decode {a : Annotation} (h : Annotation.decode j = .ok a) :
    TreeRules.checked.span a.span := by
  obtain ⟨-, -, h⟩ := bind_eq_ok.1 h
  obtain ⟨code, -, h⟩ := bind_eq_ok.1 h
  obtain ⟨message, -, h⟩ := bind_eq_ok.1 h
  obtain ⟨span, hspan, h⟩ := bind_eq_ok.1 h
  obtain rfl := Except.ok.inj h
  obtain ⟨v, -, hv⟩ := demand_part_ok hspan
  exact Span.checked_of_decode hv

theorem Junk.keeps_of_decode {junk : Junk} (h : Junk.decode j = .ok junk) :
    junk.Keeps .checked := by
  obtain ⟨-, -, h⟩ := bind_eq_ok.1 h
  obtain ⟨content, -, h⟩ := bind_eq_ok.1 h
  obtain ⟨list, hlist, h⟩ := bind_eq_ok.1 h
  obtain ⟨span, hspan, h⟩ := bind_eq_ok.1 h
  obtain rfl := Except.ok.inj h
  obtain ⟨v, -, hv⟩ := demand_part_ok hspan
  refine ⟨Span.checked_of_decode hv, fun a ha => ?_⟩
  obtain ⟨u, -, hu⟩ := demand_list_ok hlist a ha
  exact Annotation.checked_of_decode hu

/-- A decoded entry keeps the rules, one case for each tag. -/
theorem Entry.keeps_of_decode {e : Entry} (h : Entry.decode j = .ok e) : e.Keeps .checked := by
  obtain ⟨tag, -, h⟩ := bind_eq_ok.1 h
  split at h
  · obtain ⟨m, hm, rfl⟩ := map_eq_ok.1 h
    exact Message.keeps_of_decode hm
  · obtain ⟨t, ht, rfl⟩ := map_eq_ok.1 h
    exact Term.keeps_of_decode ht
  · obtain ⟨c, -, rfl⟩ := map_eq_ok.1 h
    trivial
  · obtain ⟨junk, hjunk, rfl⟩ := map_eq_ok.1 h
    exact Junk.keeps_of_decode hjunk
  · cases h

/-- **A decoded resource keeps the rules of the checked constructors**, at every depth. -/
theorem Resource.keeps_of_decode {r : Resource} (h : Resource.decode j = .ok r) :
    r.Keeps .checked := by
  obtain ⟨-, -, h⟩ := bind_eq_ok.1 h
  obtain ⟨list, hlist, h⟩ := bind_eq_ok.1 h
  obtain rfl := Except.ok.inj h
  intro e he
  obtain ⟨v, -, hv⟩ := demand_list_ok hlist e he
  exact Entry.keeps_of_decode hv

end Fluent
