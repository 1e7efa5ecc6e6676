/-
# Whatever is parsed is well-formed

Whatever the source and the settings are, the resource that is read keeps the rules of well-formed
trees, and the spans of its junk lie within the source.

* `itemsFrom_forall`, `itemsFrom_all` : what holds of everything read and of all junk holds of every
  item;
* `parse_all` : so what no comment can change holds of every entry of a resource;
* `parse_keeps` : a resource keeps all rules that follow from those of well-formed trees;
* `parse_wellFormed` : so it is well-formed.
-/
import Fluent.Proofs.Grammar.Limits
import Fluent.Proofs.Grammar.WellFormed
import Fluent.Proofs.Resource.Parts
import Fluent.Proofs.Resource.RoundTrip

namespace Fluent

open Grammar

/-! ## Places in a text -/

/-- The cursor stands in a text of `size` bytes. -/
def Cursor.Fills (size : Nat) (c : Cursor) : Prop :=
  c.pos + utf8Length c.rest = size

/-- The text still adds up to the size further on. -/
theorem Cursor.Fills.of_le {size : Nat} {c d : Cursor} (h : c.Fills size) (hle : c ≤ d) :
    d.Fills size := by
  obtain ⟨text, hrest, hpos⟩ := hle
  have hlength : utf8Length c.rest = utf8Length text + utf8Length d.rest := by
    rw [hrest, utf8Length_append]
  unfold Cursor.Fills at h ⊢
  omega

/-- No cursor lies beyond the size of the text. -/
theorem Cursor.Fills.pos_le {size : Nat} {c : Cursor} (h : c.Fills size) : c.pos ≤ size :=
  Nat.le.intro h

/-- Unifying line ends makes no text longer. -/
theorem utf8Length_unifyLineEnds_le (text : List Char) :
    utf8Length (unifyLineEnds text) ≤ utf8Length text := by
  have hdrop : utf8Length (dropPairedReturns text) ≤ utf8Length text := by
    fun_induction dropPairedReturns text with
    | case1 text ih =>
      simp only [utf8Length_cons]
      omega
    | case2 ch text _ ih =>
      simp only [utf8Length_cons]
      omega
    | case3 => exact Nat.le_refl _
  -- a carriage return and a line feed take one byte each
  have hmap : ∀ text, utf8Length (returnsToLineFeeds text) = utf8Length text := by
    intro text
    induction text with
    | nil => rfl
    | cons ch text ih =>
      rw [returnsToLineFeeds, List.map_cons, utf8Length_cons, utf8Length_cons, ← returnsToLineFeeds,
        ih]
      split
      · rename_i hch
        subst hch
        rfl
      · rfl
  unfold unifyLineEnds
  split
  · rw [hmap]
    exact hdrop
  · exact Nat.le_refl _

/-! ## Junk -/

section Junk

variable {size : Nat}

/-- The span of an annotation lies within a text of the given size. -/
theorem annotationOf_span (failure : ParseFailure) :
    (TreeRules.wellFormed size).span (annotationOf failure size).span := by
  constructor
  · show min failure.position size ≤ min (min failure.position size + 1) size
    omega
  · exact Nat.min_le_right _ _

/-- Junk between two cursors is well formed. -/
theorem junkBetween_keeps (failure : ParseFailure) {start stop : Cursor} (hle : start ≤ stop)
    (hstop : stop.Fills size) :
    (junkBetween failure size start stop).Keeps (.wellFormed size) := by
  refine ⟨⟨Cursor.pos_le_of_le hle, hstop.pos_le⟩, fun a ha => ?_⟩
  obtain rfl := List.mem_singleton.1 ha
  exact annotationOf_span failure

/-- The last junk before parsing stops is well formed. -/
theorem finalJunk_keeps (failure : ParseFailure) (limit : Nat) {start stop : Cursor}
    (hstart : start.Fills size) (hstop : stop.Fills size) :
    (finalJunk failure limit size start stop).Keeps (.wellFormed size) := by
  refine ⟨⟨hstart.pos_le, Nat.le_refl size⟩, fun a ha => ?_⟩
  rcases List.mem_cons.1 ha with rfl | ha
  · exact annotationOf_span failure
  · obtain rfl := List.mem_singleton.1 ha
    exact ⟨hstop.pos_le, Nat.le_refl size⟩

/-- The junk of a text that is too large is well formed. -/
theorem oversizedJunk_keeps (limit : Nat) (source : List Char) :
    (oversizedJunk limit source).Keeps (.wellFormed (utf8Length source)) := by
  refine ⟨⟨Nat.zero_le _, Nat.le_refl _⟩, fun a ha => ?_⟩
  obtain rfl := List.mem_singleton.1 ha
  exact ⟨Nat.zero_le _, Nat.le_refl _⟩

end Junk

/-! ## Items -/

/-- What holds of everything that is read from a cursor on, and of the junk where reading gives up,
holds of every item. -/
theorem itemsFrom_forall {rule : Rule Entry} {limit size errors : Nat} {before : List Item}
    {c : Cursor} {P : Entry → Prop}
    (hread : ∀ {d stop : Cursor} {found : Entry}, c ≤ d → rule.run d = .ok (found, stop) → P found)
    (hjunk : ∀ {d : Cursor} {failure : ParseFailure}, c ≤ d → rule.run d = .error failure →
      P (.junk (junkBetween failure size d (nextItemStart d))) ∧
        P (.junk (finalJunk failure limit size d (nextItemStart d))))
    (hbefore : ∀ item ∈ before, P item.entry) :
    ∀ item ∈ itemsFrom rule limit size before errors c, P item.entry := by
  -- each round adds one item in front of those that were met
  have hcons : ∀ {before : List Item} {item : Item}, (∀ x ∈ before, P x.entry) → P item.entry →
      ∀ x ∈ item :: before, P x.entry := by
    intro before item hbefore hitem x hx
    rcases List.mem_cons.1 hx with rfl | hx
    · exact hitem
    · exact hbefore x hx
  fun_induction itemsFrom rule limit size before errors c with
  | case1 => exact fun item hitem => hbefore item (List.mem_reverse.1 hitem)
  | case2 before errors c _ found stop hr ih =>
    have hle : c ≤ stop.skipBlankLines :=
      Cursor.le_trans (Cursor.le_of_lt (rule.advances hr)) (Cursor.le_skipBlankLines stop)
    exact ih (fun hd => hread (Cursor.le_trans hle hd)) (fun hd => hjunk (Cursor.le_trans hle hd))
      (hcons hbefore (hread (Cursor.le_refl c) hr))
  | case3 before errors c _ failure hr stop _ =>
    exact fun item hitem => hcons hbefore (hjunk (Cursor.le_refl c) hr).2 item
      (List.mem_reverse.1 hitem)
  | case4 before errors c _ failure hr stop _ ih =>
    have hle : c ≤ stop.skipBlankLines :=
      Cursor.le_trans (le_nextItemStart c) (Cursor.le_skipBlankLines stop)
    exact ih (fun hd => hread (Cursor.le_trans hle hd)) (fun hd => hjunk (Cursor.le_trans hle hd))
      (hcons hbefore (hjunk (Cursor.le_refl c) hr).1)

/-- What holds of everything that is read, and of all junk in place, holds of every item. -/
theorem itemsFrom_all {rule : Rule Entry} {limit size errors : Nat} {before : List Item}
    {c : Cursor} {P : Entry → Prop}
    (hread : ∀ {c stop : Cursor} {found : Entry}, '\r' ∉ c.rest →
      rule.run c = .ok (found, stop) → P found)
    (hjunk : ∀ {junk : Junk}, junk.Keeps (.wellFormed size) → P (.junk junk))
    (hclean : '\r' ∉ c.rest) (hfills : c.Fills size) (hbefore : ∀ item ∈ before, P item.entry) :
    ∀ item ∈ itemsFrom rule limit size before errors c, P item.entry := by
  refine itemsFrom_forall (fun hd => hread (Cursor.not_mem_of_le hd hclean)) ?_ hbefore
  intro d failure hd _
  have hstart := hfills.of_le hd
  have hstop := hstart.of_le (le_nextItemStart d)
  exact ⟨hjunk (junkBetween_keeps failure (le_nextItemStart d) hstop),
    hjunk (finalJunk_keeps failure limit hstart hstop)⟩

/-- What holds of all items, and of entries if it holds of their parts, holds of the entries that
comments were attached to. -/
theorem attachComments_all {P : Entry → Prop} (hwhole : ∀ {e}, (∀ part ∈ e.parts, P part) → P e)
    {list : List Item} (hlist : ∀ item ∈ list, item.entry.parts = [item.entry] ∧ P item.entry) :
    ∀ e ∈ attachComments list, P e := by
  intro e he
  refine hwhole fun part hpart => ?_
  have hmem : part ∈ (attachComments list).flatMap Entry.parts :=
    List.mem_flatMap.2 ⟨e, he, hpart⟩
  rw [attachComments_parts fun item hitem => (hlist item hitem).1] at hmem
  obtain ⟨item, hitem, rfl⟩ := List.mem_map.1 hmem
  exact (hlist item hitem).2

/-! ## Resources -/

/-- The rules for smaller texts are stronger. -/
theorem TreeRules.wellFormed_mono {size larger : Nat} (h : size ≤ larger) :
    (TreeRules.wellFormed size).Implies (.wellFormed larger) where
  name _ := id
  pattern _ := id
  placed _ := id
  message _ := id
  span _ hspan := ⟨hspan.1, Nat.le_trans hspan.2 h⟩

/-- **What holds of everything that the grammar reads, and of all junk, holds of every entry of a
resource**, if no comment that is attached can change it. -/
theorem parse_all {P : Entry → Prop} (settings : ParserSettings) {source : List Char}
    (hread : ∀ {c stop : Cursor} {found : Entry}, '\r' ∉ c.rest →
      entry (nested settings.maxNestingDepth settings.maxNestingDepth) c = .ok (found, stop) →
      P found)
    (hjunk : ∀ {junk : Junk}, junk.Keeps (.wellFormed (utf8Length source)) → P (.junk junk))
    (hwhole : ∀ {e}, (∀ part ∈ e.parts, P part) → P e) :
    ∀ e ∈ (Resource.parse settings source).entries, P e := by
  rw [Resource.parse, Rule.ext_run (entryTwice_run settings.maxNestingDepth), Resource.parseBy]
  split
  · intro e he
    obtain rfl := List.mem_singleton.1 he
    exact hjunk (oversizedJunk_keeps settings.maxSourceSize source)
  · have hstart := Cursor.le_skipBlankLines (Cursor.ofText (unifyLineEnds source))
    have hfills : (Cursor.ofText (unifyLineEnds source)).Fills
        (utf8Length (unifyLineEnds source)) := Nat.zero_add _
    have hlarger := TreeRules.wellFormed_mono (utf8Length_unifyLineEnds_le source)
    refine attachComments_all hwhole (itemsFrom_all
      (P := fun e => e.parts = [e] ∧ P e) (fun hclean h => ?_)
      (fun {junk} hkeeps => ⟨rfl, hjunk (Entry.Keeps.mono (e := .junk junk) hlarger hkeeps)⟩)
      (Cursor.not_mem_of_le hstart (return_not_mem_unifyLineEnds source)) (hfills.of_le hstart)
      (by simp))
    obtain ⟨last, -, he, -⟩ := entryLine_eq_ok_iff.1 h
    exact ⟨entry_parts he, hread hclean he⟩

/-- An entry keeps the rules if its parts do: no rule asks for comments. -/
theorem keeps_of_parts {size : Nat} {e : Entry}
    (h : ∀ part ∈ e.parts, part.Keeps (.wellFormed size)) : e.Keeps (.wellFormed size) := by
  cases e with
  | message m =>
    have hm : Message.Keeps (.wellFormed size) { m with comment := none } :=
      h _ (List.mem_append_right _ (List.mem_singleton_self _))
    exact ⟨hm.name, hm.value, hm.attributes, hm.whole⟩
  | term t =>
    have ht : Term.Keeps (.wellFormed size) { t with comment := none } :=
      h _ (List.mem_append_right _ (List.mem_singleton_self _))
    exact ⟨ht.name, ht.value, ht.attributes⟩
  | comment _ => trivial
  | junk _ => exact h _ (List.mem_singleton_self _)

/-- Whatever is parsed keeps the rules that follow from those of well-formed trees. -/
theorem parse_keeps {rules : TreeRules} (settings : ParserSettings) {source : List Char}
    (himp : (TreeRules.wellFormed (utf8Length source)).Implies rules) :
    (Resource.parse settings source).Keeps rules :=
  Resource.Keeps.mono himp (parse_all settings
    (fun hclean h => (entry_ok h hclean).keeps (yields_nested _ _ _)) id keeps_of_parts)

/-- **Whatever is parsed is well-formed**: whatever the source and the settings are, every part of
the resource keeps the rules, however deep it lies. -/
theorem parse_wellFormed (settings : ParserSettings) (source : List Char) :
    (Resource.parse settings source).Keeps (.wellFormed (utf8Length source)) :=
  parse_keeps settings (TreeRules.wellFormed_mono (Nat.le_refl _))

end Fluent
