/-
# Printed resources are read again

Printed item by item, a segmented text becomes a text with the same segments: entries come back as
they were, with the same comments attached, and junk comes back as junk, where pieces that now meet
may come back as one.

* `Reprinted` : how the items of the printed text are related to those that were printed;
* `Reprinted.printItems_eq`, `Reprinted.weave_eq` : they have the same canonical text, and without
  junk they make the same entries;
* `Segmented.reprinted` : the printed text is segmented into such items.
-/
import Fluent.Proofs.Resource.Attachment
import Fluent.Proofs.Resource.Borders
import Fluent.Proofs.Resource.SpacedEntries

namespace Fluent

open Grammar

/-! ## Junk in front of something else -/

/-- Whether a text recovers is decided by its first line. -/
theorem recovers_append {text : List Char} (h : '\n' ∈ text) (after : List Char) :
    Recovers (text ++ after) ↔ Recovers text := by
  have hspaces : Spaces (text.takeWhile (· == ' ')) := List.all_eq_true.1 List.all_takeWhile
  have hcut : text = text.takeWhile (· == ' ') ++ text.dropWhile (· == ' ') :=
    List.takeWhile_append_dropWhile.symm
  obtain ⟨ch, more, hmore⟩ : ∃ ch more, text.dropWhile (· == ' ') = ch :: more := by
    refine List.exists_cons_of_ne_nil fun hnil => ?_
    rw [hnil, List.append_nil] at hcut
    rw [hcut] at h
    exact absurd (hspaces _ h) (by decide)
  have hstop := stops_dropWhile (· == ' ') text
  rw [hmore] at hcut
  rw [hmore, stops_cons] at hstop
  have hch : ch ≠ ' ' := by simpa using hstop
  have hline : BlankLine (text ++ after) ↔ BlankLine text := by
    rw [hcut, List.append_assoc, blankLine_append hspaces, blankLine_append hspaces,
      List.cons_append, blankLine_cons hch, blankLine_cons hch]
  have hhead : (text ++ after).head? = text.head? := by
    cases text with
    | nil => cases h
    | cons x t => rfl
  rw [Recovers, Recovers, hline, hhead]

/-- Each line of junk ends with a line feed, also the last one. -/
theorem mem_of_junk_suffix {seg s t : List Char} (hlast : seg.getLast? = some '\n')
    (hcut : seg = s ++ '\n' :: t) (hne : t ≠ []) : '\n' ∈ t := by
  rw [hcut, List.getLast?_append, List.getLast?_cons_of_ne_nil hne] at hlast
  cases hl : t.getLast? with
  | none => exact absurd (List.getLast?_eq_none_iff.1 hl) hne
  | some x =>
    rw [hl] at hlast
    obtain rfl := Option.some.inj hlast
    exact List.mem_of_getLast? hl

/-- Junk ends in front of everything that recovers. -/
theorem JunkLines.move {seg after after' : List Char} (h : JunkLines seg after)
    (hend : after = [] → after' = []) (hrec : after' = [] ∨ Recovers after') :
    JunkLines seg after' := by
  refine ⟨h.ne_nil, ?_, ?_⟩
  · rcases h.ends with hnil | ⟨hlast, -⟩
    · exact .inl (hend hnil)
    · exact hrec.imp_right fun hrec => ⟨hlast, hrec⟩
  -- the lines within junk end there, so they do not depend on what follows it
  · intro s t hcut hne
    rcases h.ends with hnil | ⟨hlast, -⟩
    · have hfirst := h.first s t hcut hne
      rw [hnil] at hfirst
      rw [hend hnil]
      exact hfirst
    · have hmem := mem_of_junk_suffix hlast hcut hne
      have hfirst := h.first s t hcut hne
      rw [recovers_append hmem] at hfirst ⊢
      exact hfirst

/-- In front of other junk that does not recover it goes on. -/
theorem JunkLines.append {seg after seg' after' : List Char} (h : JunkLines seg after)
    (hlast : seg.getLast? = some '\n') (h' : JunkLines seg' after')
    (hrec : ¬ Recovers (seg' ++ after')) : JunkLines (seg ++ seg') after' := by
  have hne : seg ++ seg' ≠ [] := by simp [h.ne_nil]
  refine ⟨hne, ?_, ?_⟩
  · refine h'.ends.imp_right fun hends => ⟨?_, hends.2⟩
    rw [List.getLast?_append, hends.1]
    rfl
  · intro s t hcut htne
    rcases List.append_eq_append_iff.1 hcut with ⟨u, -, hu⟩ | ⟨u, hu, ht⟩
    · exact h'.first u t hu htne
    · cases u with
      | nil => exact h'.first [] t ht.symm htne
      | cons ch u =>
        obtain ⟨rfl, rfl⟩ := List.cons.inj ht
        by_cases hnil : u = []
        · subst hnil
          exact hrec
        · -- the cut lies within the first piece, where its own lines decide
          have hmem := mem_of_junk_suffix hlast hu hnil
          have hfirst := h.first s u hu hnil
          rw [recovers_append hmem] at hfirst
          show ¬ Recovers ((u ++ seg') ++ after')
          rw [List.append_assoc, recovers_append hmem]
          exact hfirst

/-- Junk starts with a line that is not blank. -/
theorem JunkLines.start {seg after : List Char} (h : JunkLines seg after)
    (hblank : ¬ BlankLine (seg ++ after)) :
    ∃ spaces ch t, seg = spaces ++ ch :: t ∧ Spaces spaces ∧ isBlank ch = false := by
  have hspaces : Spaces (seg.takeWhile (· == ' ')) := List.all_eq_true.1 List.all_takeWhile
  have hcut : seg = seg.takeWhile (· == ' ') ++ seg.dropWhile (· == ' ') :=
    List.takeWhile_append_dropWhile.symm
  cases hdrop : seg.dropWhile (· == ' ') with
  | nil =>
    rw [hdrop, List.append_nil] at hcut
    -- spaces alone: with the line end or the end of the text behind them the line is blank
    have hall : Spaces seg := hcut ▸ hspaces
    rcases h.ends with hnil | ⟨hlast, -⟩
    · refine absurd ?_ hblank
      rw [blankLine_append hall, hnil]
      exact blankLine_nil
    · exact absurd (hall _ (List.mem_of_getLast? hlast)) (by decide)
  | cons ch t =>
    have hstop := stops_dropWhile (· == ' ') seg
    rw [hdrop, stops_cons] at hstop
    have hch : ch ≠ ' ' := by simpa using hstop
    rw [hdrop] at hcut
    refine ⟨_, ch, t, hcut, hspaces, ?_⟩
    have hfeed : ch ≠ '\n' := by
      intro hfeed
      refine hblank ?_
      rw [hcut, List.append_assoc, blankLine_append hspaces, List.cons_append, blankLine_cons hch]
      exact hfeed
    simp [isBlank, hch, hfeed]

/-! ## Items of a printed text -/

/-- The items of a printed text, and those that were printed.  Entries are the same and attached in
the same way; junk has the same text, cut in other pieces at most. -/
inductive Reprinted : List Item → List Item → Prop
  | nil : Reprinted [] []
  | entry {a a' : Item} {rest rest' : List Item} (hentry : a'.entry = a.entry)
      (hjunk : a.entry.isJunk = false)
      (hjoins : rest'.head?.any (joins a') = rest.head?.any (joins a))
      (hrest : Reprinted rest rest') : Reprinted (a :: rest) (a' :: rest')
  | junk {a a' : Item} {rest rest' : List Item} (ha : a.entry.isJunk = true)
      (ha' : a'.entry.isJunk = true)
      (hprint : ∀ separate, a'.entry.print separate = a.entry.print separate)
      (hrest : Reprinted rest rest') : Reprinted (a :: rest) (a' :: rest')
  | glued {a a' b : Item} {rest rest' : List Item} (ha : a.entry.isJunk = true)
      (ha' : a'.entry.isJunk = true) (hb : b.entry.isJunk = true)
      (hprint : ∀ separate, a'.entry.print separate = a.entry.print separate ++ b.entry.print false)
      (hrest : Reprinted rest (b :: rest')) : Reprinted (a :: rest) (a' :: rest')

/-- Items that do not touch do not join. -/
theorem joins_eq_false_of_ne {a b : Item} (h : a.stop ≠ b.start) : joins a b = false := by
  rw [joins, joined?, if_neg h]
  rfl

/-- Items that join touch. -/
theorem stop_eq_of_joins {a b : Item} (h : joins a b = true) : a.stop = b.start :=
  Classical.byContradiction fun hne => by
    rw [joins_eq_false_of_ne hne] at h
    cases h

/-- Nothing is joined with junk. -/
theorem joins_junk {a b : Item} (hb : b.entry.isJunk = true) : joins a b = false := by
  rw [joins, joined?]
  split
  · cases hentry : b.entry with
    | junk junk => cases a.entry <;> rfl
    | _ =>
      rw [hentry] at hb
      cases hb
  · rfl

/-- Two items that meet where two others meet are joined like these. -/
theorem joins_congr {a a' b b' : Item} (ha : a'.entry = a.entry) (hb : b'.entry = b.entry)
    (hstop : a.stop = b.start) (hstop' : a'.stop = b'.start) : joins a' b' = joins a b := by
  rw [joins, joins, joined?, joined?, if_pos hstop, if_pos hstop', ha, hb]

namespace Reprinted

/-- The printed items have the same canonical text. -/
theorem printItems_eq {list list' : List Item} (h : Reprinted list list') (separate : Bool) :
    printItems separate list' = printItems separate list := by
  induction h generalizing separate with
  | nil => rfl
  | entry hentry hjunk hjoins _ ih => rw [printItems, printItems, hentry, hjoins, ih]
  | junk ha ha' hprint _ ih => rw [printItems, printItems, ha, ha', hprint, ih]; rfl
  | glued ha ha' hb hprint _ ih =>
    have hrest := ih false
    rw [printItems, hb] at hrest
    rw [printItems, printItems, ha, ha', hprint, List.append_assoc]
    exact congrArg _ hrest

/-- Whether items join depends on their entries and on whether they touch. -/
theorem joined?_congr {a a' b b' : Item} (ha : a'.entry = a.entry) (hb : b'.entry = b.entry)
    (h : joins a' b' = joins a b) : joined? a' b' = joined? a b := by
  simp only [joins, joined?, ha, hb] at h ⊢
  generalize merged? a.entry b.entry = found at h ⊢
  cases found with
  | none => simp
  | some e => split at h <;> split at h <;> simp_all

/-- Items that meet where they are joined, and only there, are joined as before. -/
theorem joins_eq {a a' : Item} {list list' : List Item} (h : Reprinted list list')
    (hentry : a'.entry = a.entry)
    (hmeet : ∀ b ∈ list.head?, b.entry.isJunk = false → ∀ b' ∈ list'.head?,
      b'.start = a'.stop ↔ list.head?.any (joins a) = true) :
    list'.head?.any (joins a') = list.head?.any (joins a) := by
  cases h with
  | nil => rfl
  | @entry b b' _ _ hb hjunk _ _ =>
    have hmeet : b'.start = a'.stop ↔ joins a b = true := by
      simpa using hmeet b rfl hjunk b' rfl
    show joins a' b' = joins a b
    cases hjoins : joins a b with
    | true =>
      rw [joins_congr hentry hb (stop_eq_of_joins hjoins) (hmeet.2 hjoins).symm, hjoins]
    | false =>
      refine joins_eq_false_of_ne fun hstop => ?_
      have hjoined := hmeet.1 hstop.symm
      rw [hjoins] at hjoined
      cases hjoined
  | @junk b b' _ _ hb hb' => exact (joins_junk hb').trans (joins_junk hb).symm
  | @glued b b' _ _ _ hb hb' => exact (joins_junk hb').trans (joins_junk hb).symm

/-- An item that is no junk comes back as it was. -/
theorem uncons {a : Item} {rest list' : List Item} (h : Reprinted (a :: rest) list')
    (hjunk : a.entry.isJunk = false) :
    ∃ a' rest', list' = a' :: rest' ∧ a'.entry = a.entry ∧
      rest'.head?.any (joins a') = rest.head?.any (joins a) ∧ Reprinted rest rest' := by
  cases h with
  | entry hentry _ hjoins hrest => exact ⟨_, _, rfl, hentry, hjoins, hrest⟩
  | junk ha => exact absurd (ha.symm.trans hjunk) (by decide)
  | glued ha => exact absurd (ha.symm.trans hjunk) (by decide)

/-- Without junk they make the same entries. -/
theorem weave_eq {list list' : List Item} (h : Reprinted list list')
    (hjunk : ∀ a ∈ list, a.entry.isJunk = false) : weave list' = weave list := by
  fun_induction weave list generalizing list' with
  | case1 =>
    cases h
    rfl
  | case2 a =>
    obtain ⟨a', rest', rfl, hentry, -, hrest⟩ := h.uncons (hjunk a List.mem_cons_self)
    cases hrest
    rw [weave, hentry]
  | case3 a b rest e he ih =>
    -- the comment and its entry are both printed again, and still touch
    have hb : b ∈ a :: b :: rest := List.mem_cons_of_mem _ List.mem_cons_self
    obtain ⟨a', _, rfl, hentry, hjoins, hrest⟩ := h.uncons (hjunk a List.mem_cons_self)
    obtain ⟨b', rest', rfl, hentry', -, hrest⟩ := hrest.uncons (hjunk b hb)
    have hjoins : joins a' b' = joins a b := by simpa using hjoins
    have hlist := ih hrest fun x hx => hjunk x (List.mem_cons_of_mem _ (List.mem_cons_of_mem _ hx))
    rw [weave, joined?_congr hentry hentry' hjoins, he]
    exact congrArg _ hlist
  | case4 a b rest he ih =>
    have hb : b ∈ a :: b :: rest := List.mem_cons_of_mem _ List.mem_cons_self
    obtain ⟨a', _, rfl, hentry, hjoins, hrest⟩ := h.uncons (hjunk a List.mem_cons_self)
    have hlist := ih hrest fun x hx => hjunk x (List.mem_cons_of_mem _ hx)
    obtain ⟨b', rest', rfl, hentry', -, -⟩ := hrest.uncons (hjunk b hb)
    have hjoins : joins a' b' = joins a b := by simpa using hjoins
    rw [weave, joined?_congr hentry hentry' hjoins, he, hentry]
    exact congrArg _ hlist

end Reprinted

/-! ## What follows an item -/

/-- Junk is printed as it stands in the text. -/
theorem printItems_junk (separate : Bool) (failure : ParseFailure) (size : Nat)
    (before seg : List Char) (items : List Item) :
    printItems separate (itemOf before seg (.junk (junkOf failure size before seg)) :: items) =
      seg ++ printItems false items := by
  simp [printItems, itemOf, Entry.print, junkOf, Entry.isJunk]

/-- A printed entry starts with a character that may start one; only a comment starts with a
mark. -/
theorem entryBody_cons {deep : Nested} {e : Entry} (h : EntryReadable deep e) :
    ∃ ch t, entryBody e = ch :: t ∧ isBlank ch = false ∧
      ((∀ found, e ≠ .comment found) → ch ≠ '#') := by
  cases e with
  | message m =>
    obtain ⟨ch, rest, hcons, hch⟩ := h.name.cons
    refine ⟨ch, _, by rw [entryBody, hcons]; rfl, ?_, fun _ => ?_⟩
    · have hne : ch ≠ ' ' ∧ ch ≠ '\n' := by
        constructor <;> rintro rfl <;> exact absurd hch (by decide)
      simp [isBlank, hne]
    · rintro rfl
      exact absurd hch (by decide)
  | term t => exact ⟨'-', _, rfl, rfl, fun _ => by decide⟩
  | comment found =>
    obtain ⟨text, htext⟩ := found.body_cons
    exact ⟨'#', text, htext, rfl, fun hne => absurd rfl (hne found)⟩
  | junk found => exact h.elim

namespace Segmented

variable {deep : Nested} {size : Nat} {before rest : List Char} {items : List Item}

/-- A text without characters has no items. -/
theorem items_eq_nil (h : Segmented deep size before rest items) (hrest : rest = []) :
    items = [] := by
  cases h with
  | blank => rfl
  | entry _ hread =>
    rw [List.append_assoc] at hread
    have hne := body_ne_nil hread
    simp [hne] at hrest
  | junk _ _ hjunk =>
    have hne := hjunk.ne_nil
    simp [hne] at hrest

/-- Junk may be followed by what is printed behind it. -/
theorem spaced_junk {seg after text : List Char} (hjunk : JunkLines seg after)
    (hend : after = [] → text = []) (h : Spaced ('\n' :: text) ('\n' :: after)) :
    Spaced (seg ++ text) (seg ++ after) := by
  rcases hjunk.ends with hnil | ⟨hlast, -⟩
  · rw [hnil, hend hnil]
    exact .refl _
  · obtain ⟨s, rfl⟩ := List.getLast?_eq_some_iff.1 hlast
    rw [List.append_assoc, List.append_assoc]
    exact h.append_feed s

/-- The printed text is the segmented one without its blank lines, up to the first entry. -/
theorem spaced (h : Segmented deep size before rest items) (hclean : '\r' ∉ rest) :
    Spaced ('\n' :: printItems false items) ('\n' :: rest) := by
  induction h with
  | blank hgap => exact .last hgap
  | @entry before gap body ending after found items hgap hread _ _ _ =>
    have hreadable : EntryReadable deep found :=
      entry_ok hread fun hmem => hclean (List.mem_append_right _ hmem)
    obtain ⟨hhead, hcurrent⟩ := head_of_entry hread
    obtain ⟨ch, t, hcons, -⟩ := entryBody_cons hreadable
    refine .heads hgap.blankLines ⟨?_, hhead, ?_⟩
    · rw [printItems, itemOf, entry_print_eq hreadable, List.append_assoc, List.append_assoc]
      exact head_of_body hreadable _
    · have hfirst : (body ++ ending ++ after).head? = some ch := by
        rw [hcons] at hcurrent
        exact hcurrent
      rw [hfirst, printItems, itemOf, entry_print_eq hreadable, hcons]
      rfl
  | @junk before gap seg after failure items hgap hread hjunk hrest ih =>
    have hafter : '\r' ∉ after := fun hmem =>
      hclean (List.mem_append_right _ (List.mem_append_right _ hmem))
    rw [printItems_junk]
    refine .feed hgap.blankLines (spaced_junk hjunk (fun hnil => ?_) (ih hafter))
    rw [hrest.items_eq_nil hnil]
    rfl

/-- The first line of the printed text that is not blank starts like that of the segmented one. -/
theorem first_line (h : Segmented deep size before rest items) (hclean : '\r' ∉ rest) :
    items = [] ∧ Blank rest ∨ ∃ gap spaces ch t t', rest = gap ++ (spaces ++ ch :: t) ∧
      BlankLines gap ∧ Spaces spaces ∧ isBlank ch = false ∧
        ∀ separate, ∃ sep, BlankLines sep ∧
          printItems separate items = sep ++ (spaces ++ ch :: t') := by
  cases h with
  | blank hgap => exact .inl ⟨rfl, hgap⟩
  | @entry _ gap body ending after found items hgap hread _ hrest =>
    have hreadable : EntryReadable deep found :=
      entry_ok hread fun hmem => hclean (List.mem_append_right _ hmem)
    -- an entry starts its line in both texts, with the same character
    obtain ⟨-, hcurrent⟩ := head_of_entry hread
    obtain ⟨ch, t', hcons, hblank, -⟩ := entryBody_cons hreadable
    obtain ⟨t, ht⟩ : ∃ t, body ++ ending ++ after = ch :: t := by
      rw [hcons] at hcurrent
      exact List.head?_eq_some_iff.1 hcurrent
    refine .inr ⟨gap, [], ch, t, t' ++ (['\n'] ++ printItems (!found.isJunk &&
      !items.head?.any (joins (itemOf (before ++ gap) (body ++ ending) found))) items),
      by rw [ht]; rfl, hgap.blankLines, spaces_nil, hblank, fun separate => ?_⟩
    refine ⟨if separate then ['\n'] else [], ?_, ?_⟩
    · cases separate
      · exact blankLines_nil
      · exact ⟨by simp [Blank, isBlank], .inr rfl⟩
    · rw [printItems, itemOf, entry_print_eq hreadable, hcons]
      simp
  | @junk _ gap seg after failure items hgap hread hjunk hrest =>
    -- junk is printed as it stands, behind the spaces that it starts with
    obtain ⟨spaces, ch, t, hseg, hspaces, hblank⟩ := hjunk.start hgap.notBlank
    refine .inr ⟨gap, spaces, ch, t ++ after, t ++ printItems false items, ?_, hgap.blankLines,
      hspaces, hblank, fun separate => ⟨[], blankLines_nil, ?_⟩⟩
    · rw [hseg]
      simp
    · rw [printItems_junk]
      conv => lhs; rw [hseg]
      simp

/-- A value that ends in the segmented text ends in the printed one. -/
theorem valueEnds (h : Segmented deep size before rest items) (hclean : '\r' ∉ rest)
    {ending : List Char} {pos : Nat} (hend : LineEnding ending rest)
    (hvalue : ValueEnds ⟨ending ++ rest, pos⟩) (separate : Bool) (pos' : Nat) :
    ValueEnds ⟨'\n' :: printItems separate items, pos'⟩ := by
  rcases h.first_line hclean with
    ⟨rfl, -⟩ | ⟨gap, spaces, ch, t, t', hrest, hgap, hspaces, hblank, hprint⟩
  · exact valueEnds_of_blank rfl blank_nil
  · obtain ⟨sep, hsep, htext⟩ := hprint separate
    have hfeed : ending = ['\n'] := by
      refine hend.resolve_right fun hnil => ?_
      rw [hnil.2] at hrest
      simp at hrest
    have hsource : (⟨ending ++ rest, pos⟩ : Cursor).rest =
        '\n' :: (gap ++ (spaces ++ ch :: t)) := by
      rw [hfeed, hrest]
      rfl
    rw [valueEnds_iff hsource hgap hspaces hblank] at hvalue
    rw [htext]
    exact (valueEnds_iff rfl hsep hspaces hblank).2 hvalue

/-- Junk is refused again in front of what is printed behind it. -/
theorem junk_refused {seg after : List Char} {failure : ParseFailure} {pos : Nat}
    (h : Segmented deep size before after items) (hclean : '\r' ∉ after) (hsteady : deep.Steady)
    (hjunk : JunkLines seg after)
    (hread : (entryLine deep).run ⟨seg ++ after, pos⟩ = .error failure) (pos' : Nat) :
    ∃ failure', (entryLine deep).run ⟨seg ++ printItems false items, pos'⟩ = .error failure' := by
  have hnil : after = [] → printItems false items = [] := by
    intro hnil
    rw [h.items_eq_nil hnil]
    rfl
  have hspaced : Spaced (seg ++ printItems false items) (⟨seg ++ after, pos⟩ : Cursor).rest :=
    spaced_junk hjunk hnil (h.spaced hclean)
  cases hrun : (entryLine deep).run ⟨seg ++ printItems false items, pos'⟩ with
  | error failure' => exact ⟨failure', rfl⟩
  | ok found =>
    -- what can be read there could have been read in the first place
    obtain ⟨found', hread', -⟩ := hsteady.entryLine hspaced _ hrun
    cases hread.symm.trans hread'

/-- A comment ends in front of what is printed behind it. -/
theorem commentEnds (h : Segmented deep size before rest items) (hclean : '\r' ∉ rest)
    (hsteady : deep.Steady) {separate : Bool}
    (hapart : separate = false → ∀ b ∈ items.head?, ∀ found, b.entry ≠ .comment found)
    (level : CommentLevel) (pos : Nat) :
    CommentEnds level ⟨'\n' :: printItems separate items, pos⟩ := by
  refine ⟨.inr rfl, ?_⟩
  show isCommentLine level ⟨printItems separate items, pos + '\n'.utf8Size⟩ = false
  cases h with
  | blank => exact isCommentLine_eq_false (Option.some_ne_none _).symm
  | @entry _ gap body ending after found items hgap hread _ hrest =>
    have hreadable : EntryReadable deep found :=
      entry_ok hread fun hmem => hclean (List.mem_append_right _ hmem)
    obtain ⟨ch, t, hcons, -, hmark⟩ := entryBody_cons hreadable
    refine isCommentLine_eq_false fun hc => ?_
    rw [printItems, itemOf, entry_print_eq hreadable, hcons] at hc
    cases separate with
    | true => exact absurd (Option.some.inj hc) (by decide)
    | false =>
      refine hmark (fun comment => hapart rfl _ rfl comment) ?_
      exact Option.some.inj hc
  | @junk _ gap seg after failure items hgap hread hjunk hrest =>
    have hafter : '\r' ∉ after := fun hmem =>
      hclean (List.mem_append_right _ (List.mem_append_right _ hmem))
    rw [printItems_junk]
    cases hline : isCommentLine level ⟨seg ++ printItems false items, pos + '\n'.utf8Size⟩ with
    | false => rfl
    | true =>
      -- a line of a comment would have been read as one, and not as junk
      obtain ⟨e, stop, hcomment⟩ := entryLine_of_isCommentLine deep hline
      obtain ⟨failure', hfailure⟩ := hrest.junk_refused hafter hsteady hjunk hread _
      cases hfailure.symm.trans hcomment

/-- Something other than junk comes first, with junk in front of it or without. -/
theorem junk_of_not_recovers {list : List Item} {text : List Char}
    (h : Segmented deep size before text list) (hrec : ¬ Recovers text) :
    ∃ seg after failure rest, text = seg ++ after ∧ JunkLines seg after ∧
      Segmented deep size (before ++ seg) after rest ∧
        list = itemOf before seg (.junk (junkOf failure size before seg)) :: rest := by
  -- a gap of blank lines would be a place to go on
  have hnil : ∀ {gap after : List Char}, BlankLines gap → ¬ Recovers (gap ++ after) → gap = [] := by
    intro gap after hgap hrec
    refine hgap.cases.resolve_right ?_
    rintro ⟨spaces, more, rfl, hs, -⟩
    refine hrec (.inl ?_)
    rw [List.append_assoc, blankLine_append hs]
    exact (blankLine_cons (by decide) _).2 rfl
  cases h with
  | blank hgap =>
    -- blanks alone make a blank line
    refine absurd (.inl ?_) hrec
    intro ch hch
    have hblank := hgap ch ((List.dropWhile_sublist _).mem (List.mem_of_head? hch))
    have hspace := stops_dropWhile (· == ' ') text ch hch
    simp only [isBlank, Bool.or_eq_true] at hblank
    simp_all
  | entry hgap hread =>
    obtain rfl := hnil hgap.blankLines hrec
    obtain ⟨ch, t, hcons, hch⟩ := (head_of_entry hread).1.cons
    refine absurd (.inr ⟨ch, ?_, hch⟩) hrec
    have hhead : (⟨_, _⟩ : Cursor).rest = ch :: t := hcons
    simpa using congrArg List.head? hhead
  | @junk _ gap seg after failure items hgap hread hjunk hrest =>
    obtain rfl := hnil hgap.blankLines hrec
    simp only [List.append_nil] at hrest ⊢
    exact ⟨seg, after, failure, items, rfl, hjunk, hrest, rfl⟩

/-- An entry ends in front of what is printed behind it. -/
theorem entryEnds {body ending : List Char} {pos pos' : Nat} {a : Item}
    (h : Segmented deep size before rest items) (hclean : '\r' ∉ body ++ ending ++ rest)
    (hread : Grammar.entry deep ⟨body ++ ending ++ rest, pos⟩ =
      .ok (a.entry, ⟨ending ++ rest, pos'⟩))
    (hend : LineEnding ending rest)
    (hsteady : deep.Steady) {separate : Bool}
    (hseparate : separate = !items.head?.any (joins a)) (pos'' : Nat) :
    EntryEnds a.entry ⟨'\n' :: printItems separate items, pos''⟩ := by
  have hrest : '\r' ∉ rest := fun hmem => hclean (List.mem_append_right _ hmem)
  have hvalue : (∀ comment, a.entry ≠ .comment comment) →
      ValueEnds ⟨'\n' :: printItems separate items, pos''⟩ := by
    intro hne
    have hvalue := (entry_ends hread hclean).resolve_left fun ⟨comment, h⟩ => hne comment h
    exact h.valueEnds hrest hend hvalue separate pos''
  cases hentry : a.entry with
  | comment comment =>
    refine h.commentEnds hrest hsteady (fun hnone b hb other hother => ?_) _ _
    -- two comments are never joined
    obtain ⟨more, rfl⟩ := List.head?_eq_some_iff.1 hb
    have hjoins : joins a b = true := by
      rw [hnone] at hseparate
      simpa using hseparate.symm
    rw [joins, joined?, hentry, hother] at hjoins
    split at hjoins <;> cases hjoins
  | message m => exact hvalue (by simp [hentry])
  | term t => exact hvalue (by simp [hentry])
  | junk junk => exact hvalue (by simp [hentry])

/-- Junk that starts where a line starts. -/
theorem junk_here {seg after : List Char} {failure : ParseFailure} (hlines : LineStart before)
    (hblank : ¬ BlankLine (seg ++ after))
    (hread : (entryLine deep).run ⟨seg ++ after, utf8Length before⟩ = .error failure)
    (hjunk : JunkLines seg after) (hrest : Segmented deep size (before ++ seg) after items) :
    Segmented deep size before (seg ++ after)
      (itemOf before seg (.junk (junkOf failure size before seg)) :: items) := by
  have hgap : Gap before [] (seg ++ after) := ⟨blank_nil, by rwa [List.append_nil], hblank⟩
  have hsegmented := Segmented.junk hgap (by rwa [List.append_nil]) hjunk
    (by rwa [List.append_nil])
  rwa [List.append_nil] at hsegmented

/-- A printed entry is read again where a line starts, behind an empty line or without one. -/
theorem entry_here {body ending : List Char} {pos pos' : Nat} {a : Item} {before' sep : List Char}
    {items' : List Item} {size' : Nat} {separate : Bool} (hdeep : Canonical deep)
    (h : Segmented deep size before rest items) (hclean : '\r' ∉ body ++ ending ++ rest)
    (hread : Grammar.entry deep ⟨body ++ ending ++ rest, pos⟩ =
      .ok (a.entry, ⟨ending ++ rest, pos'⟩))
    (hend : LineEnding ending rest) (hsteady : deep.Steady)
    (hseparate : separate = !items.head?.any (joins a)) (hsep : Blank sep)
    (hlines : LineStart (before' ++ sep))
    (hsegmented : Segmented deep size' (before' ++ sep ++ (entryBody a.entry ++ ['\n']))
      (printItems separate items) items') :
    Segmented deep size' before' (sep ++ (entryBody a.entry ++ ['\n'] ++ printItems separate items))
      (itemOf (before' ++ sep) (entryBody a.entry ++ ['\n']) a.entry :: items') := by
  have hreadable : EntryReadable deep a.entry := entry_ok hread hclean
  have hgap : Gap before' sep (entryBody a.entry ++ ['\n'] ++ printItems separate items) := by
    obtain ⟨ch, t, hcons, hblank, -⟩ := entryBody_cons hreadable
    have hne : ch ≠ ' ' ∧ ch ≠ '\n' := by simpa [isBlank] using hblank
    refine ⟨hsep, hlines, ?_⟩
    rw [hcons]
    exact fun hline => hne.2 ((blankLine_cons hne.1 _).1 hline)
  have hends : EntryEnds a.entry ⟨'\n' :: printItems separate items,
      utf8Length (before' ++ sep ++ entryBody a.entry)⟩ :=
    h.entryEnds hclean hread hend hsteady hseparate _
  refine .entry hgap ?_ (.inl rfl) hsegmented
  refine entry_of_passes hdeep hreadable ⟨by simp, ?_⟩ hends
  rw [utf8Length_append (before' ++ sep)]

/-- What is printed from junk on is junk again, which may go on with the junk behind it. -/
theorem reprinted_junk {before' seg after : List Char} {failure : ParseFailure}
    {items' : List Item} {size' : Nat} (hrest : Segmented deep size (before ++ seg) after items)
    (hjunk : JunkLines seg after) (hblank : ¬ BlankLine (seg ++ after))
    (hread : (entryLine deep).run ⟨seg ++ printItems false items, utf8Length before'⟩ =
      .error failure)
    (hlines : LineStart before')
    (hsegmented : Segmented deep size' (before' ++ seg) (printItems false items) items')
    (hreprinted : Reprinted items items') {a : Item} (ha : a.entry.isJunk = true)
    (hprint : ∀ separate, a.entry.print separate = seg) :
    ∃ list, Segmented deep size' before' (seg ++ printItems false items) list ∧
      Reprinted (a :: items) list := by
  have hnil : after = [] → printItems false items = [] := by
    intro hnil
    rw [hrest.items_eq_nil hnil]
    rfl
  obtain ⟨spaces, ch, t, hseg, hspaces, hch⟩ := hjunk.start hblank
  have hline : ∀ text, ¬ BlankLine (seg ++ text) := by
    intro text
    have hne : ch ≠ ' ' ∧ ch ≠ '\n' := by simpa [isBlank] using hch
    rw [hseg, List.append_assoc, blankLine_append hspaces, List.cons_append, blankLine_cons hne.1]
    exact hne.2
  -- junk ends where something recovers; where nothing does it takes the junk behind it as well
  by_cases hrec : printItems false items = [] ∨ Recovers (printItems false items)
  · refine ⟨_, junk_here hlines (hline _) hread (hjunk.move hnil hrec) hsegmented,
      .junk ha rfl (fun separate => ?_) hreprinted⟩
    rw [hprint]
    simp [itemOf, Entry.print, junkOf]
  · rw [not_or] at hrec
    -- an entry would recover, so junk comes next
    obtain ⟨seg', after', failure', rest', htext, hjunk', hseg', rfl⟩ :=
      hsegmented.junk_of_not_recovers hrec.2
    have hlast : seg.getLast? = some '\n' := by
      rcases hjunk.ends with h | ⟨hlast, -⟩
      · exact absurd (hnil h) hrec.1
      · exact hlast
    rw [htext] at hread hrec ⊢
    rw [← List.append_assoc] at hread
    have hboth := hjunk.append hlast hjunk' hrec.2
    rw [List.append_assoc] at hseg'
    have hglued := junk_here hlines (by rw [List.append_assoc]; exact hline _) hread hboth hseg'
    rw [List.append_assoc] at hglued
    refine ⟨_, hglued, .glued ha rfl rfl (fun separate => ?_) hreprinted⟩
    rw [hprint]
    simp [itemOf, Entry.print, junkOf]

/-- The empty line that may stand between two printed entries. -/
theorem exists_separator {before' : List Char} (hlines : LineStart before') (separate : Bool) :
    ∃ sep, (if separate then ['\n'] else []) = sep ∧ Blank sep ∧ LineStart (before' ++ sep) ∧
      (utf8Length (before' ++ sep) = utf8Length before' ↔ separate = false) := by
  cases separate with
  | true =>
    have hfeed : utf8Length ['\n'] = 1 := by decide
    exact ⟨['\n'], rfl, by simp [Blank, isBlank], lineStart_snoc before', by simp [hfeed]⟩
  | false => exact ⟨[], rfl, blank_nil, by rwa [List.append_nil], by simp⟩

/-- **A printed text is segmented into the items that were printed.** -/
theorem reprinted (hdeep : Canonical deep) (h : Segmented deep size before rest items)
    (hclean : '\r' ∉ rest)
    (hsteady : deep.Steady) (size' : Nat)
    {before' : List Char} (hstart : rest = [] ∨ LineStart before') (separate : Bool) :
    ∃ items', Segmented deep size' before' (printItems separate items) items' ∧
      Reprinted items items' ∧ ∀ a ∈ items.head?, a.entry.isJunk = false → ∀ a' ∈ items'.head?,
        (a'.start = utf8Length before' ↔ separate = false) := by
  induction h generalizing before' separate with
  | blank => exact ⟨[], .blank blank_nil, .nil, nofun⟩
  | @entry before gap body ending after found items hgap hread hend hrest ih =>
    have hbody : '\r' ∉ body ++ ending ++ after := fun hmem =>
      hclean (List.mem_append_right _ hmem)
    have hafter : '\r' ∉ after := fun hmem => hbody (List.mem_append_right _ hmem)
    have hreadable : EntryReadable deep found := entry_ok hread hbody
    have hnojunk : found.isJunk = false := by
      cases found with
      | junk junk => exact hreadable.elim
      | _ => rfl
    have hlines' : LineStart before' := by
      refine hstart.resolve_left fun hnil => ?_
      rw [List.append_assoc] at hread
      simp [body_ne_nil hread] at hnil
    obtain ⟨sep, hsep, hblank, hlines, hlength⟩ := exists_separator hlines' separate
    -- an empty line follows unless the item behind is joined
    let item := itemOf (before ++ gap) (body ++ ending) found
    let next := !items.head?.any (joins item)
    obtain ⟨items', hsegmented, hreprinted, hfirst⟩ := ih hafter
      (.inr (lineStart_snoc (before' ++ sep ++ entryBody found))) next
    rw [List.append_assoc] at hsegmented
    have hprint : printItems separate (item :: items) =
        sep ++ (entryBody found ++ ['\n'] ++ printItems next items) := by
      show found.print separate ++ printItems (!found.isJunk && next) items = _
      rw [entry_print_eq hreadable, hnojunk, hsep]
      simp
    refine ⟨itemOf (before' ++ sep) (entryBody found ++ ['\n']) found :: items', ?_, ?_, ?_⟩
    · rw [hprint]
      exact hrest.entry_here (a := item) hdeep hbody hread hend hsteady rfl hblank hlines hsegmented
    · refine .entry rfl hnojunk (hreprinted.joins_eq rfl fun b hb hjunk b' hb' => ?_) hreprinted
      have hmeet := hfirst b hb hjunk b' hb'
      rw [List.append_assoc] at hmeet
      show b'.start = utf8Length (before' ++ sep ++ (entryBody found ++ ['\n'])) ↔ _
      rw [hmeet]
      simp [next, item]
    · intro a _ _ a' ha'
      obtain rfl := Option.some.inj ha'
      exact hlength
  | @junk before gap seg after failure items hgap hread hjunk hrest ih =>
    have hafter : '\r' ∉ after := fun hmem =>
      hclean (List.mem_append_right _ (List.mem_append_right _ hmem))
    have hlines : LineStart before' := by
      refine hstart.resolve_left fun hnil => ?_
      simp [hjunk.ne_nil] at hnil
    obtain ⟨items', hsegmented, hreprinted, -⟩ := ih hafter hjunk.lineStart false
    obtain ⟨failure', hfailure⟩ :=
      hrest.junk_refused hafter hsteady hjunk hread (utf8Length before')
    rw [printItems_junk]
    obtain ⟨list, hlist, hreprinted'⟩ := reprinted_junk hrest hjunk hgap.notBlank hfailure hlines
      hsegmented hreprinted (a := itemOf (before ++ gap) seg
        (.junk (junkOf failure size (before ++ gap) seg))) rfl
      (fun separate => by simp [itemOf, Entry.print, junkOf])
    exact ⟨list, hlist, hreprinted', fun a ha hjunk' => by
      obtain rfl := Option.some.inj ha
      cases hjunk'⟩

end Segmented

end Fluent
