/-
# Round trips

Where nothing but nesting is limited, the canonical text of a resource is canonical, and without
junk it is read as the same resource.

* `parse_print` : the resource that was read from a source without junk is read again from its
  canonical text;
* `print_parse_print` : the canonical text of any source is its own canonical text.
-/
import Fluent.Proofs.Resource.Accounting
import Fluent.Proofs.Resource.Reprint

namespace Fluent

open Grammar

/-! ## Line ends -/

/-- A text with unified line ends holds no carriage returns. -/
theorem return_not_mem_unifyLineEnds (text : List Char) : '\r' ∉ unifyLineEnds text := by
  unfold unifyLineEnds
  split
  · intro hmem
    obtain ⟨ch, -, hch⟩ := List.mem_map.1 hmem
    split at hch
    · exact absurd hch (by decide)
    · rename_i hne
      exact hne hch
  · rename_i hclean
    simpa using hclean

/-- A text without carriage returns has unified line ends. -/
theorem unifyLineEnds_eq_self {text : List Char} (h : '\r' ∉ text) : unifyLineEnds text = text := by
  rw [unifyLineEnds, if_neg (by simpa using h)]

namespace Segmented

variable {deep : Nested} {size : Nat} {before rest : List Char} {items : List Item}

/-- Printing brings in no carriage returns. -/
theorem return_not_mem_print (hdeep : Canonical deep) (h : Segmented deep size before rest items)
    (hclean : '\r' ∉ rest) (separate : Bool) : '\r' ∉ printItems separate items := by
  induction h generalizing separate with
  | blank => exact List.not_mem_nil
  | @entry _ gap body ending after found items _ hread _ _ ih =>
    have hbody : '\r' ∉ body ++ ending ++ after := fun hmem =>
      hclean (List.mem_append_right _ hmem)
    have hreadable : EntryReadable deep found := entry_ok hread hbody
    have hentry := entry_noReturn hdeep hreadable
    have hrest := ih fun hmem => hbody (List.mem_append_right _ hmem)
    rw [printItems, itemOf, entry_print_eq hreadable]
    cases separate <;> simp [hentry, hrest]
  | @junk _ gap seg after failure items _ _ _ _ ih =>
    have hseg : '\r' ∉ seg ++ after := fun hmem => hclean (List.mem_append_right _ hmem)
    have hrest := ih fun hmem => hseg (List.mem_append_right _ hmem)
    rw [printItems_junk]
    intro hmem
    rcases List.mem_append.1 hmem with hmem | hmem
    · exact hseg (List.mem_append_left _ hmem)
    · exact hrest false hmem

end Segmented

/-! ## Reading the canonical text -/

/-- The items of a source, under a limit on nesting alone. -/
def itemsOf (limit : Nat) (source : List Char) : List Item :=
  items (entryLine (nested limit limit)) 0 (unifyLineEnds source)

/-- The items that are read from a source cut its text into segments. -/
theorem segmented_itemsOf (limit : Nat) (source : List Char) :
    Segmented (nested limit limit) (utf8Length (unifyLineEnds source)) [] (unifyLineEnds source)
      (itemsOf limit source) :=
  segmented_items _ _

/-- A resource is woven from the items of its source. -/
theorem parse_eq_weave (limit : Nat) (source : List Char) :
    Resource.parse (.nestingOnly limit) source = ⟨weave (itemsOf limit source)⟩ := by
  rw [parse_nestingOnly, ← attachComments_eq_weave (segmented_itemsOf limit source).parts]
  rfl

/-- What was parsed is printed item by item. -/
theorem print_parse_eq (limit : Nat) (source : List Char) :
    Resource.print (Resource.parse (.nestingOnly limit) source) =
      printItems false (itemsOf limit source) := by
  rw [parse_eq_weave, Resource.print]
  exact printEntries_weave (segmented_itemsOf limit source).parts false

/-- The items of the canonical text are those that were printed. -/
theorem reprinted_itemsOf (limit : Nat) (source : List Char) :
    Reprinted (itemsOf limit source) (itemsOf limit (printItems false (itemsOf limit source))) := by
  have hdeep : Canonical (nested limit limit) := canonical_nested limit limit
  have hsteady : (nested limit limit).Steady := nested_steady limit limit
  have hsegmented := segmented_itemsOf limit source
  have hclean := return_not_mem_unifyLineEnds source
  obtain ⟨items', hitems', hreprinted, -⟩ := hsegmented.reprinted hdeep hclean hsteady
    (utf8Length (printItems false (itemsOf limit source))) (.inr (.inl rfl)) false
  -- the printed text holds no carriage returns, so its line ends stay as they are
  have hprint := unifyLineEnds_eq_self (hsegmented.return_not_mem_print hdeep hclean false)
  have hagain : itemsOf limit (printItems false (itemsOf limit source)) = items' := by
    conv => lhs; rw [itemsOf]
    rw [hprint]
    exact hitems'.items_eq
  rwa [hagain]

/-- Without junk among the entries there is none among the items. -/
theorem itemsOf_isJunk {limit : Nat} {source : List Char}
    (h : (Resource.parse (.nestingOnly limit) source).junk = []) :
    ∀ item ∈ itemsOf limit source, item.entry.isJunk = false := by
  intro item hitem
  cases hentry : item.entry with
  | junk junk =>
    have hparts := attachComments_parts (segmented_itemsOf limit source).parts
    rw [attachComments_eq_weave (segmented_itemsOf limit source).parts] at hparts
    rw [parse_eq_weave, junk_eq, ← filterMap_junk_parts, hparts, List.filterMap_eq_nil_iff] at h
    have hnone := h item.entry (List.mem_map.2 ⟨item, hitem, rfl⟩)
    rw [hentry] at hnone
    cases hnone
  | _ => rfl

/-- **The canonical text of a resource without junk is read as the same resource**: the same entries
with the same comments, patterns and literals. -/
theorem parse_print (limit : Nat) (source : List Char)
    (h : (Resource.parse (.nestingOnly limit) source).junk = []) :
    let resource := Resource.parse (.nestingOnly limit) source
    Resource.parse (.nestingOnly limit) resource.print = resource := by
  intro resource
  have hjunk := itemsOf_isJunk h
  have hreprinted : Reprinted (itemsOf limit source) (itemsOf limit resource.print) := by
    rw [show resource.print = _ from print_parse_eq limit source]
    exact reprinted_itemsOf limit source
  rw [parse_eq_weave, hreprinted.weave_eq hjunk]
  exact (parse_eq_weave limit source).symm

/-- A message with a comment, a selection on lines of its own, and an attribute. -/
def greetingSource : List Char :=
  "# A greeting\nhello =\n  Hello, \x7b $count ->\n   [one] you\n".toList ++
    "  *[other] all\n     of you\n  \x7d!\n .title = Hi\n".toList

theorem parse_print_greeting :
    let resource := Resource.parse (.nestingOnly 1) greetingSource
    resource.junk = [] ∧ Resource.parse (.nestingOnly 1) resource.print = resource := by
  have hjunk : (Resource.parse (.nestingOnly 1) greetingSource).junk = [] := by decide +kernel
  exact ⟨hjunk, parse_print 1 greetingSource hjunk⟩

/-- **Canonical text is canonical**, with junk in it or without: reading it and printing what was
read changes nothing. -/
theorem print_parse_print (limit : Nat) (source : List Char) :
    let text := (Resource.parse (.nestingOnly limit) source).print
    (Resource.parse (.nestingOnly limit) text).print = text := by
  intro text
  have htext : text = printItems false (itemsOf limit source) := print_parse_eq limit source
  rw [print_parse_eq, htext]
  exact (reprinted_itemsOf limit source).printItems_eq false

/-- Two pieces of junk may come back as one. -/
example :
    let parse := Resource.parse (.nestingOnly 1)
    let resource := parse "\x7d one\n\n\x7d two\n".toList
    resource.junk.length = 2 ∧ (parse resource.print).junk.length = 1 := by
  decide +kernel

end Fluent
