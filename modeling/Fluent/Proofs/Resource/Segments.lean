/-
# Segments

A text is cut into segments, with blanks between them.  Each segment is an entry with the line end
behind it, or junk that no entry could be read from.

* `Segmented` : the relation between a text and the items of its segments;
* `segmented_items` : the items of a text are those of its segments, and `Segmented.items_eq` : a
  text is segmented in one way only;
* `Segmented.bounds` : segments are not empty, lie in the text and come one after the other;
* `Segmented.junk_eq` : junk is the piece of the text that its span tells.
-/
import Fluent.Proofs.Resource.Lines
import Fluent.Proofs.Text.Slices

namespace Fluent

open Grammar

/-! ## Segments -/

/-- Behind `before` and the blanks in `gap` a line starts that is not blank. -/
structure Gap (before gap after : List Char) : Prop where
  blank : Blank gap
  lineStart : LineStart (before ++ gap)
  notBlank : ¬ BlankLine after

/-- The end of a line that holds something, where the text goes on with `after`. -/
def LineEnding (ending after : List Char) : Prop :=
  ending = ['\n'] ∨ ending = [] ∧ after = []

/-- An entry of a text that fills `seg`, behind `before`. -/
def itemOf (before seg : List Char) (entry : Entry) : Item :=
  ⟨utf8Length before, utf8Length (before ++ seg), entry⟩

/-- The junk of a text of `size` bytes that is made of `seg`, behind `before`. -/
def junkOf (failure : ParseFailure) (size : Nat) (before seg : List Char) : Junk :=
  { content := String.ofList seg
    annotations := [annotationOf failure size]
    span := ⟨utf8Length before, utf8Length (before ++ seg)⟩ }

/-- Behind `before` a text goes on with `rest`, which is cut into the segments of the items.  Blanks
lie between them.  Entries are read with the given allowance; a line that starts none is junk. -/
inductive Segmented (deep : Nested) (size : Nat) : List Char → List Char → List Item → Prop
  | blank {before gap : List Char} (hgap : Blank gap) : Segmented deep size before gap []
  | entry {before gap body ending after : List Char} {found : Entry} {items : List Item}
      (hgap : Gap before gap (body ++ ending ++ after))
      (hread : entry deep ⟨body ++ ending ++ after, utf8Length (before ++ gap)⟩ =
        .ok (found, ⟨ending ++ after, utf8Length (before ++ gap ++ body)⟩))
      (hend : LineEnding ending after)
      (hrest : Segmented deep size (before ++ gap ++ (body ++ ending)) after items) :
      Segmented deep size before (gap ++ (body ++ ending ++ after))
        (itemOf (before ++ gap) (body ++ ending) found :: items)
  | junk {before gap seg after : List Char} {failure : ParseFailure} {items : List Item}
      (hgap : Gap before gap (seg ++ after))
      (hread : (entryLine deep).run ⟨seg ++ after, utf8Length (before ++ gap)⟩ = .error failure)
      (hjunk : JunkLines seg after)
      (hrest : Segmented deep size (before ++ gap ++ seg) after items) :
      Segmented deep size before (gap ++ (seg ++ after))
        (itemOf (before ++ gap) seg (.junk (junkOf failure size (before ++ gap) seg)) :: items)

/-! ## Entries and their line ends -/

/-- A line end is accepted exactly where a line ending stands. -/
theorem lineEnd_eq_ok_iff {c stop : Cursor} :
    lineEnd c = .ok stop ↔ ∃ ending, c.Passes ending stop ∧ LineEnding ending stop.rest := by
  unfold lineEnd
  constructor
  · intro h
    split at h
    · rename_i hc
      obtain rfl := Except.ok.inj h
      exact ⟨[], .refl c, .inr ⟨rfl, by simpa [Cursor.current] using hc⟩⟩
    · rename_i ch hc
      split at h
      · rename_i hfeed
        obtain rfl := Except.ok.inj h
        exact ⟨[ch], Cursor.passes_bump hc, .inl (by rw [hfeed])⟩
      · exact absurd h fail_ne_ok
  · rintro ⟨ending, hp, rfl | ⟨rfl, hrest⟩⟩
    · rw [hp.current_cons]
      dsimp only
      rw [if_pos rfl, Cursor.bump_eq hp]
    · obtain rfl := hp.eq_of_nil
      rw [Cursor.current, hrest]
      rfl

/-- An entry line is an entry and the line end behind it. -/
theorem entryLine_eq_ok_iff {deep : Nested} {c stop : Cursor} {found : Entry} :
    (entryLine deep).run c = .ok (found, stop) ↔
      ∃ mid ending, entry deep c = .ok (found, mid) ∧ mid.Passes ending stop ∧
        LineEnding ending stop.rest := by
  constructor
  · intro h
    obtain ⟨⟨found', mid⟩, he, h⟩ := bind_eq_ok.1 h
    obtain ⟨last, hl, h⟩ := bind_eq_ok.1 h
    obtain ⟨rfl, rfl⟩ := Prod.mk.inj (Except.ok.inj h)
    obtain ⟨ending, hp, hend⟩ := lineEnd_eq_ok_iff.1 hl
    exact ⟨mid, ending, he, hp, hend⟩
  · rintro ⟨mid, ending, he, hp, hend⟩
    exact bind_eq_ok.2 ⟨_, he, bind_eq_ok.2 ⟨_, lineEnd_eq_ok_iff.2 ⟨ending, hp, hend⟩, rfl⟩⟩

/-- What is read as an entry is no junk. -/
theorem entry_ne_junk {deep : Nested} {c stop : Cursor} {found : Entry}
    (h : entry deep c = .ok (found, stop)) (junk : Junk) : found ≠ .junk junk := by
  rintro rfl
  rcases entry_cases h with ⟨_, hjunk, -⟩ | ⟨_, hjunk, -⟩ | ⟨_, hjunk, -⟩ <;> cases hjunk

/-! ## The segments of a text -/

/-- Behind a line end a line starts. -/
theorem LineEnding.lineStart {before ending after : List Char} (h : LineEnding ending after) :
    after = [] ∨ LineStart (before ++ ending) := by
  rcases h with rfl | ⟨-, h⟩
  · exact .inr (lineStart_snoc before)
  · exact .inl h

/-- Behind junk a line starts. -/
theorem JunkLines.lineStart {before seg after : List Char} (h : JunkLines seg after) :
    after = [] ∨ LineStart (before ++ seg) := by
  rcases h.ends with h | ⟨h, -⟩
  · exact .inl h
  · exact .inr (.inr (by rw [List.getLast?_append, h]; rfl))

/-- From the start of a line on, skipping blank lines leads to the end or to the next segment. -/
theorem gap_skipBlankLines (before : List Char) (c : Cursor)
    (hstart : c.rest = [] ∨ LineStart before) :
    ∃ gap, c.Passes gap c.skipBlankLines ∧ Blank gap ∧
      (c.skipBlankLines.rest = [] ∨ Gap before gap c.skipBlankLines.rest) := by
  obtain ⟨gap, hp, hb, h⟩ := passes_skipBlankLines c
  refine ⟨gap, hp, hb, ?_⟩
  rcases h with h | ⟨hl, hn⟩
  · exact .inl h
  rcases hstart with hnil | hstart
  · exact .inl (List.append_eq_nil_iff.1 (hp.1.symm.trans hnil)).2
  · exact .inr ⟨hb, hstart.append hl, hn⟩

/-- What is read as items from a cursor on are the segments of the text that is left. -/
theorem segmented_itemsFrom (deep : Nested) (size errors : Nat) (list : List Item) {c : Cursor}
    {before gap : List Char} (hpos : c.pos = utf8Length (before ++ gap)) (hblank : Blank gap)
    (hgap : c.rest = [] ∨ Gap before gap c.rest) :
    ∃ items, itemsFrom (entryLine deep) 0 size list errors c = list.reverse ++ items ∧
      Segmented deep size before (gap ++ c.rest) items := by
  fun_induction itemsFrom (entryLine deep) 0 size list errors c generalizing before gap with
  | case1 list errors c hc =>
    refine ⟨[], (List.append_nil _).symm, ?_⟩
    rw [hc, List.append_nil]
    exact .blank hblank
  | case2 list errors c hc found stop hr ih =>
    -- an entry and its line end, then blank lines up to the next segment
    obtain ⟨mid, ending, he, hpe, hend⟩ := entryLine_eq_ok_iff.1 hr
    obtain ⟨body, hpb⟩ : ∃ body, c.Passes body mid := Cursor.le_of_lt (entry_lt he)
    have hrest : c.rest = body ++ ending ++ stop.rest := by
      rw [hpb.1, hpe.1, List.append_assoc]
    have hstop : stop.pos = utf8Length (before ++ gap ++ (body ++ ending)) := by
      rw [← List.append_assoc]
      exact hpe.pos_eq (hpb.pos_eq hpos)
    obtain ⟨gap', hp', hb', hgap'⟩ :=
      gap_skipBlankLines (before ++ gap ++ (body ++ ending)) stop (by
        rw [← List.append_assoc]
        exact hend.lineStart)
    obtain ⟨items, hitems, hseg⟩ := ih (hp'.pos_eq hstop) hb' hgap'
    refine ⟨itemOf (before ++ gap) (body ++ ending) found :: items, ?_, ?_⟩
    · rw [hitems, List.reverse_cons, List.append_assoc, itemOf, ← hpos, ← hstop]
      rfl
    · rw [hrest]
      refine .entry (hrest ▸ hgap.resolve_left hc) ?_ hend (hp'.1 ▸ hseg)
      rw [← Cursor.eq_mk hrest hpos, ← Cursor.eq_mk hpe.1 (hpb.pos_eq hpos)]
      exact he
  | case3 => omega
  | case4 list errors c hc failure hr stop hlimit =>
    rename_i ih
    -- junk, then blank lines up to the next segment
    obtain ⟨seg, hp, hjunk⟩ := passes_nextItemStart hc
    have hstop : stop.pos = utf8Length (before ++ gap ++ seg) := hp.pos_eq hpos
    obtain ⟨gap', hp', hb', hgap'⟩ :=
      gap_skipBlankLines (before ++ gap ++ seg) stop hjunk.lineStart
    obtain ⟨items, hitems, hseg⟩ := ih (hp'.pos_eq hstop) hb' hgap'
    refine ⟨itemOf (before ++ gap) seg (.junk (junkOf failure size (before ++ gap) seg)) :: items,
      ?_, ?_⟩
    · rw [hitems, List.reverse_cons, List.append_assoc, junkBetween, Cursor.textTo_eq hp.1, itemOf,
        junkOf, ← hpos, ← hstop]
      rfl
    · have hrest : c.rest = seg ++ stop.rest := hp.1
      rw [hrest]
      refine .junk (hrest ▸ hgap.resolve_left hc) ?_ hjunk (hp'.1 ▸ hseg)
      rw [← Cursor.eq_mk hrest hpos]
      exact hr

/-- A text is cut into the segments of its items. -/
theorem segmented_items (deep : Nested) (text : List Char) :
    Segmented deep (utf8Length text) [] text (items (entryLine deep) 0 text) := by
  obtain ⟨gap, hp, hb, hgap⟩ :=
    gap_skipBlankLines [] (Cursor.ofText text) (.inr (.inl rfl))
  have hpos : (Cursor.ofText text).skipBlankLines.pos = utf8Length ([] ++ gap) := hp.pos_eq rfl
  obtain ⟨list, hlist, hseg⟩ := segmented_itemsFrom deep (utf8Length text) 0 [] hpos hb hgap
  rw [← show text = gap ++ _ from hp.1] at hseg
  rw [items, hlist]
  exact hseg

/-! ## One way of cutting -/

/-- An entry that was read becomes the next item, and the loop goes on behind blank lines. -/
theorem itemsFrom_ok {rule : Rule Entry} {limit size errors : Nat} {before : List Item}
    {c stop : Cursor} {found : Entry} (hr : rule.run c = .ok (found, stop)) :
    itemsFrom rule limit size before errors c =
      itemsFrom rule limit size (⟨c.pos, stop.pos, found⟩ :: before) errors
        stop.skipBlankLines := by
  have hne : c.rest ≠ [] := by
    intro hnil
    have := Cursor.length_lt_of_lt (rule.advances hr)
    rw [hnil] at this
    exact Nat.not_lt_zero _ this
  rw [itemsFrom, dif_neg hne]
  split
  · rename_i h
    rw [hr] at h
    cases h
    rfl
  · rename_i h
    rw [hr] at h
    cases h

/-- Without a limit on errors reading goes on behind junk. -/
theorem itemsFrom_error {rule : Rule Entry} {size errors : Nat} {before : List Item}
    {c : Cursor} {failure : ParseFailure} (hc : c.rest ≠ []) (hr : rule.run c = .error failure) :
    itemsFrom rule 0 size before errors c =
      itemsFrom rule 0 size
        (⟨c.pos, (nextItemStart c).pos, .junk (junkBetween failure size c (nextItemStart c))⟩ ::
          before) (errors + 1) (nextItemStart c).skipBlankLines := by
  rw [itemsFrom, dif_neg hc]
  split
  · rename_i h
    rw [hr] at h
    cases h
  · rename_i h
    rw [hr] at h
    cases h
    exact if_neg fun h => h.1 rfl

/-- The blanks before a segment are whole lines. -/
theorem Gap.blankLines {before gap after : List Char} (h : Gap before gap after) :
    BlankLines gap := by
  refine ⟨h.blank, ?_⟩
  cases hg : gap with
  | nil => exact .inl rfl
  | cons ch t =>
    rcases h.lineStart with hnil | hlast
    · simp [hg] at hnil
    · rw [hg, List.getLast?_append] at hlast
      simpa [LineStart] using hlast

/-- Skipping blank lines from the start of a gap leads to its end. -/
theorem Gap.skipBlankLines_eq {before gap after : List Char} (h : Gap before gap after) :
    Cursor.skipBlankLines ⟨gap ++ after, utf8Length before⟩ =
      ⟨after, utf8Length (before ++ gap)⟩ := by
  have hp : Cursor.Passes ⟨gap ++ after, utf8Length before⟩ gap
      ⟨after, utf8Length (before ++ gap)⟩ := ⟨rfl, utf8Length_append before gap⟩
  rw [skipBlankLines_of_blankLines hp h.blankLines]
  exact skipBlankLines_eq_self h.notBlank

/-- A text is cut into segments in one way only. -/
theorem Segmented.itemsFrom_eq {deep : Nested} {size : Nat} {before rest : List Char}
    {list : List Item} (h : Segmented deep size before rest list) (list' : List Item)
    (errors : Nat) :
    itemsFrom (entryLine deep) 0 size list' errors
      (Cursor.skipBlankLines ⟨rest, utf8Length before⟩) = list'.reverse ++ list := by
  induction h generalizing list' errors with
  | blank hgap =>
    rw [itemsFrom, dif_pos (skipBlankLines_of_blank hgap), List.append_nil]
  | @entry before gap body ending after found items hgap hread hend _ ih =>
    -- the rule reads at the same place of the same text, so it answers the same
    have hrun : (entryLine deep).run
        ⟨body ++ ending ++ after, utf8Length (before ++ gap)⟩ =
          .ok (found, ⟨after, utf8Length (before ++ gap ++ (body ++ ending))⟩) := by
      refine entryLine_eq_ok_iff.2 ⟨_, ending, hread, ⟨rfl, ?_⟩, hend⟩
      rw [← List.append_assoc, utf8Length_append]
    rw [hgap.skipBlankLines_eq, itemsFrom_ok hrun, ih, List.reverse_cons, List.append_assoc]
    rfl
  | @junk before gap seg after failure items hgap hread hjunk _ ih =>
    have hp : Cursor.Passes ⟨seg ++ after, utf8Length (before ++ gap)⟩ seg
        ⟨after, utf8Length (before ++ gap ++ seg)⟩ := ⟨rfl, utf8Length_append _ seg⟩
    have hne : seg ++ after ≠ [] := by simp [hjunk.ne_nil]
    rw [hgap.skipBlankLines_eq, itemsFrom_error hne hread, nextItemStart_eq hp hjunk, ih,
      List.reverse_cons, List.append_assoc, junkBetween, Cursor.textTo_eq hp.1]
    rfl

/-- The segments of a whole text are its items. -/
theorem Segmented.items_eq {deep : Nested} {text : List Char} {list : List Item}
    (h : Segmented deep (utf8Length text) [] text list) :
    items (entryLine deep) 0 text = list :=
  h.itemsFrom_eq [] 0

/-! ## Where segments lie -/

/-- A segment lies behind what is before it. -/
theorem itemOf_bounds (before after : List Char) {seg : List Char} (h : seg ≠ []) (entry : Entry) :
    (itemOf before seg entry).start < (itemOf before seg entry).stop ∧
      (itemOf before seg entry).stop ≤ utf8Length (before ++ (seg ++ after)) := by
  have := utf8Length_pos h
  simp only [itemOf, utf8Length_append]
  omega

/-- What is read as an entry is not empty. -/
theorem body_ne_nil {deep : Nested} {body after : List Char} {pos pos' : Nat} {found : Entry}
    (h : entry deep ⟨body ++ after, pos⟩ = .ok (found, ⟨after, pos'⟩)) : body ≠ [] := by
  have hlt := Cursor.length_lt_of_lt (entry_lt h)
  rintro rfl
  exact Nat.lt_irrefl _ hlt

/-- Segments are not empty, lie in the text, and come one after the other. -/
theorem Segmented.bounds {deep : Nested} {size : Nat} {before rest : List Char} {list : List Item}
    (h : Segmented deep size before rest list) :
    (∀ item ∈ list, utf8Length before ≤ item.start ∧ item.start < item.stop ∧
      item.stop ≤ utf8Length (before ++ rest)) ∧
    list.Pairwise fun first next => first.stop ≤ next.start := by
  induction h with
  | blank => exact ⟨by simp, .nil⟩
  | @entry before gap body ending after found _ _ hread _ _ ih =>
    obtain ⟨hall, hpair⟩ := ih
    have hne : body ++ ending ≠ [] := by
      rw [List.append_assoc] at hread
      simp [body_ne_nil hread]
    -- all further items start behind this one, as their text does
    refine ⟨?_, List.pairwise_cons.2 ⟨fun item hitem => (hall item hitem).1, hpair⟩⟩
    rintro item (_ | ⟨_, hitem⟩)
    · have h := itemOf_bounds (before ++ gap) after hne found
      refine ⟨by simp [itemOf], h.1, ?_⟩
      simpa using h.2
    · have h := hall item hitem
      simp only [utf8Length_append] at h ⊢
      omega
  | @junk before gap seg after failure _ _ _ hjunk _ ih =>
    obtain ⟨hall, hpair⟩ := ih
    refine ⟨?_, List.pairwise_cons.2 ⟨fun item hitem => (hall item hitem).1, hpair⟩⟩
    rintro item (_ | ⟨_, hitem⟩)
    · have h := itemOf_bounds (before ++ gap) after hjunk.ne_nil
        (.junk (junkOf failure size (before ++ gap) seg))
      refine ⟨by simp [itemOf], h.1, ?_⟩
      simpa using h.2
    · have h := hall item hitem
      simp only [utf8Length_append] at h ⊢
      omega

/-! ## The text of junk -/

/-- Junk is the piece of the text that its span tells. -/
theorem Segmented.junk_eq {deep : Nested} {size : Nat} {before rest : List Char} {list : List Item}
    (h : Segmented deep size before rest list) :
    ∀ item ∈ list, ∀ junk, item.entry = .junk junk →
      junk.span = ⟨item.start, item.stop⟩ ∧
        junk.content = String.ofList (sliceBytes item.start item.stop (before ++ rest)) := by
  induction h with
  | blank => simp
  | @entry before gap body ending after found _ _ hread _ _ ih =>
    rintro item (_ | ⟨_, hitem⟩) junk hjunk
    · exact absurd hjunk (entry_ne_junk hread junk)
    · simpa using ih item hitem junk hjunk
  | @junk before gap seg after failure _ _ _ _ _ ih =>
    rintro item (_ | ⟨_, hitem⟩) junk hjunk
    · obtain rfl := Entry.junk.inj hjunk
      refine ⟨rfl, ?_⟩
      rw [← List.append_assoc, itemOf, sliceBytes_append]
      rfl
    · simpa using ih item hitem junk hjunk

end Fluent
