/-
# Where comments stand

No comment of a source is lost, doubled or moved, whatever the limits on nesting and on errors are:
the entries of a resource, each attached comment put before its entry, are the items of the source
in their order, and whether a comment is attached is told by the two items alone.

* `LaidOut` : items that lie in a text in their order, with blank lines between them;
* `items_laidOut` : the items of a text do, under any limits;
* `StandsAs` : an item of a list stands among the entries that the list makes;
* `parse_comments_placed` : where the items of a source stand, and which comments are attached.
-/
import Mathlib.Data.List.Chain
import Fluent.Proofs.Resource.ErrorLimit

namespace Fluent

open Grammar

/-! ## Items in a text -/

/-- The item is what the rule reads where it starts: an entry up to where the item ends or, where no
entry can be read, the junk that the item spans. -/
def Item.ReadIn (rule : Rule Entry) (text : List Char) (item : Item) : Prop :=
  let place : Cursor := ⟨dropBytes item.start text, item.start⟩
  (∃ stop, rule.run place = .ok (item.entry, stop) ∧ stop.pos = item.stop) ∨
    ∃ failure junk, rule.run place = .error failure ∧ item.entry = .junk junk ∧
      junk.span = ⟨item.start, item.stop⟩ ∧
        junk.content = String.ofList (sliceBytes item.start item.stop text)

/-- The first item ends with its line, only blank lines lie between it and the second one, and there
are none of them exactly if the two touch. -/
structure Item.Above (text : List Char) (a b : Item) : Prop where
  lineEnd : (sliceBytes a.start a.stop text).getLast? = some '\n'
  blankLines : BlankLines (sliceBytes a.stop b.start text)
  touching : a.stop = b.start ↔ sliceBytes a.stop b.start text = []

/-- Items that were read from a text, one after the other. -/
structure LaidOut (rule : Rule Entry) (text : List Char) (list : List Item) : Prop where
  read : ∀ item ∈ list, item.ReadIn rule text
  bounds : ∀ item ∈ list, item.start < item.stop ∧ item.stop ≤ utf8Length text
  ordered : list.Pairwise fun a b => a.stop ≤ b.start
  neighbours : list.IsChain (Item.Above text)

/-- The first segment lies behind blank lines, and it is not empty. -/
theorem Segmented.head {deep : Nested} {size : Nat} {before rest : List Char} {list : List Item}
    (h : Segmented deep size before rest list) {b : Item} (hb : list.head? = some b) :
    ∃ gap after, rest = gap ++ after ∧ BlankLines gap ∧ after ≠ [] ∧
      b.start = utf8Length (before ++ gap) := by
  cases h with
  | blank => cases hb
  | @entry before gap body ending after found items hgap hread =>
    obtain rfl := Option.some.inj hb
    rw [List.append_assoc] at hread
    exact ⟨gap, _, rfl, hgap.blankLines, by simp [body_ne_nil hread], rfl⟩
  | junk hgap _ hjunk =>
    obtain rfl := Option.some.inj hb
    exact ⟨_, _, rfl, hgap.blankLines, by simp [hjunk.ne_nil], rfl⟩

/-- A segment that ends with its line, as it does unless the text ends there, lies above the next
one. -/
theorem above_of_segmented {deep : Nested} {size : Nat} {before seg after : List Char}
    {list : List Item} {a b : Item} (h : Segmented deep size (before ++ seg) after list)
    (hb : list.head? = some b) (hstart : a.start = utf8Length before)
    (hstop : a.stop = utf8Length (before ++ seg))
    (hline : after = [] ∨ seg.getLast? = some '\n') : a.Above (before ++ (seg ++ after)) b := by
  obtain ⟨gap, rest, rfl, hgap, hrest, hplace⟩ := h.head hb
  have hbetween : sliceBytes a.stop b.start (before ++ (seg ++ (gap ++ rest))) = gap := by
    rw [hstop, hplace, ← List.append_assoc before, sliceBytes_append]
  constructor
  · rw [hstart, hstop, sliceBytes_append]
    exact hline.resolve_left (by simp [hrest])
  · rwa [hbetween]
  · rw [hbetween, hstop, hplace, utf8Length_append _ gap, ← utf8Length_eq_zero]
    omega

/-- Items of a segmented text follow each other in the text. -/
theorem Segmented.neighbours {deep : Nested} {size : Nat} {before rest : List Char}
    {list : List Item} (h : Segmented deep size before rest list) :
    list.IsChain (Item.Above (before ++ rest)) := by
  induction h with
  | blank => exact .nil
  | @entry before gap body ending after found items _ _ hend hrest ih =>
    refine List.isChain_cons.2 ⟨fun b hb => ?_, by simpa using ih⟩
    rw [← List.append_assoc before]
    refine above_of_segmented hrest hb rfl rfl ?_
    rcases hend with rfl | ⟨-, hnil⟩
    · exact .inr (by simp)
    · exact .inl hnil
  | junk _ _ hjunk hrest ih =>
    refine List.isChain_cons.2 ⟨fun b hb => ?_, by simpa using ih⟩
    rw [← List.append_assoc]
    exact above_of_segmented hrest hb rfl rfl (hjunk.ends.imp_right And.left)

/-- Each segment is what is read at its place of the text. -/
theorem Segmented.read {deep : Nested} {size : Nat} {before rest : List Char} {list : List Item}
    (h : Segmented deep size before rest list) :
    ∀ item ∈ list, item.ReadIn (entryLine deep) (before ++ rest) := by
  induction h with
  | blank => simp
  | @entry before gap body ending after found items _ hread hend _ ih =>
    rintro item (_ | ⟨_, hitem⟩)
    · left
      refine ⟨⟨after, utf8Length (before ++ gap ++ (body ++ ending))⟩, ?_, rfl⟩
      rw [← List.append_assoc before, itemOf, dropBytes_append]
      refine entryLine_eq_ok_iff.2 ⟨_, ending, hread, ⟨rfl, ?_⟩, hend⟩
      rw [← List.append_assoc, utf8Length_append]
    · simpa using ih item hitem
  | @junk before gap seg after failure items _ hread _ _ ih =>
    rintro item (_ | ⟨_, hitem⟩)
    · right
      refine ⟨failure, _, ?_, rfl, rfl, ?_⟩
      · rw [← List.append_assoc before, itemOf, dropBytes_append]
        exact hread
      · rw [← List.append_assoc before, itemOf, sliceBytes_append]
        rfl
    · simpa using ih item hitem

/-- The items of a segmented text are laid out in it. -/
theorem Segmented.laidOut {deep : Nested} {text : List Char} {list : List Item}
    (h : Segmented deep (utf8Length text) [] text list) : LaidOut (entryLine deep) text list where
  read := h.read
  bounds item hitem := (h.bounds.1 item hitem).2
  ordered := h.bounds.2
  neighbours := h.neighbours

/-! ## Under a limit on errors -/

/-- The last piece of junk may take the rest of the text. -/
theorem LaidOut.cut {rule : Rule Entry} {text : List Char} {limit start stop : Nat}
    {first rest : List Item} {junk : Junk}
    (h : LaidOut rule text (first ++ ⟨start, stop, .junk junk⟩ :: rest))
    (hrule : ∀ c e stop, rule.run c = .ok (e, stop) → e.isJunk = false) :
    LaidOut rule text (first ++ [⟨start, utf8Length text, .junk (junk.toEnd limit text)⟩]) where
  read item hitem := by
    rcases List.mem_append.1 hitem with hitem | hitem
    · exact h.read item (List.mem_append_left _ hitem)
    obtain rfl := List.mem_singleton.1 hitem
    -- no entry starts there, as the junk that was cut off says
    rcases h.read ⟨start, stop, .junk junk⟩ (by simp) with
      ⟨_, hread, -⟩ | ⟨failure, _, hread, hj, hs, -⟩
    · cases hrule _ _ _ hread
    · obtain rfl := Entry.junk.inj hj
      refine .inr ⟨failure, _, hread, rfl, ?_, ?_⟩
      · rw [Junk.toEnd, hs]
      · rw [sliceBytes_utf8Length, Junk.toEnd, hs]
  bounds item hitem := by
    rcases List.mem_append.1 hitem with hitem | hitem
    · exact h.bounds item (List.mem_append_left _ hitem)
    obtain rfl := List.mem_singleton.1 hitem
    obtain ⟨hlt, hle⟩ := h.bounds ⟨start, stop, .junk junk⟩ (by simp)
    exact ⟨Nat.lt_of_lt_of_le hlt hle, Nat.le_refl _⟩
  ordered := by
    obtain ⟨hfirst, -, hcross⟩ := List.pairwise_append.1 h.ordered
    refine List.pairwise_append.2 ⟨hfirst, List.pairwise_singleton _ _, fun a ha b hb => ?_⟩
    obtain rfl := List.mem_singleton.1 hb
    exact hcross a ha ⟨start, stop, .junk junk⟩ (by simp)
  neighbours := by
    obtain ⟨hfirst, -, hcross⟩ := List.isChain_append.1 h.neighbours
    refine List.isChain_append.2 ⟨hfirst, List.isChain_singleton _, fun a ha b hb => ?_⟩
    obtain rfl := Option.some.inj hb
    obtain ⟨hline, hblank, htouch⟩ := hcross a ha ⟨start, stop, .junk junk⟩ (by simp)
    exact ⟨hline, hblank, htouch⟩

/-- Items that are cut off at junk are still laid out in the text. -/
theorem CutOff.laidOut {rule : Rule Entry} {text : List Char} {limit : Nat}
    {list limited : List Item} (h : CutOff text limit list limited) (hlist : LaidOut rule text list)
    (hrule : ∀ c e stop, rule.run c = .ok (e, stop) → e.isJunk = false) :
    LaidOut rule text limited := by
  cases h with
  | few | last => exact hlist
  | cut hsplit =>
    rw [hsplit] at hlist
    exact hlist.cut hrule

/-- The rule for entries reads no junk. -/
theorem entryWithin_ne_junk {limit : Nat} (c : Cursor) (e : Entry) (stop : Cursor)
    (h : (entryWithin limit).run c = .ok (e, stop)) : e.isJunk = false := by
  obtain ⟨mid, -, hentry, -⟩ := entryLine_eq_ok_iff.1 h
  cases e with
  | junk junk => exact absurd rfl (entry_ne_junk hentry junk)
  | message | term | comment => rfl

/-- The items of a text are laid out in it, under any limit on errors, and no comment is attached
to them yet. -/
theorem items_laidOut (limit maxErrors : Nat) (text : List Char) :
    LaidOut (entryWithin limit) text (items (entryWithin limit) maxErrors text) ∧
      ∀ item ∈ items (entryWithin limit) maxErrors text, item.entry.parts = [item.entry] := by
  have hseg := segmented_items (nested limit limit) text
  rcases Nat.eq_zero_or_pos maxErrors with rfl | hpos
  · exact ⟨hseg.laidOut, hseg.parts⟩
  have hcut : CutOff text maxErrors (items (entryWithin limit) 0 text)
      (items (entryWithin limit) maxErrors text) :=
    itemsFrom_limit hpos rfl entryWithin_ne_junk (Cursor.le_skipBlankLines _)
  exact ⟨hcut.laidOut hseg.laidOut entryWithin_ne_junk, hcut.parts hseg.parts⟩

/-! ## Items among entries -/

/-- The comment that is attached to an entry. -/
def Entry.attached : Entry → Option Comment
  | .message m => m.comment
  | .term t => t.comment
  | _ => none

/-- The entry without the comment that is attached to it. -/
def Entry.bare : Entry → Entry
  | .message m => .message { m with comment := none }
  | .term t => .term { t with comment := none }
  | e => e

/-- The parts of an entry are the comment attached to it and the entry without that. -/
theorem Entry.parts_eq (e : Entry) :
    e.parts = (e.attached.map Entry.comment).toList ++ [e.bare] := by
  cases e with
  | message | term | comment | junk => rfl

/-- An entry that is its own only part has nothing attached. -/
theorem Entry.attached_of_parts {e : Entry} (h : e.parts = [e]) :
    e.attached = none ∧ e.bare = e := by
  rw [e.parts_eq] at h
  cases ha : e.attached with
  | none => simpa [ha] using h
  | some c => simp [ha] at h

/-- Between the items `before` and `after` an item stands as an entry of its own, with the given
comment attached to it: the entries above are made of the items before it, up to that comment, and
those below of the items behind it. -/
def StandsAs (entries : List Entry) (before : List Item) (item : Item) (after : List Item)
    (comment : Option Comment) : Prop :=
  ∃ above made below, entries = above ++ made :: below ∧
    made.bare = item.entry ∧ made.attached = comment ∧
    above.flatMap Entry.parts ++ (comment.map Entry.comment).toList = before.map Item.entry ∧
    below.flatMap Entry.parts = after.map Item.entry

/-- Two items are joined if the first one is a comment of the first level, and the second one a
message or a term that starts where the comment ends. -/
theorem joined?_cases {a b : Item} {e : Entry} (h : joined? a b = some e) :
    a.stop = b.start ∧ ∃ comment, a.entry = .comment comment ∧ comment.level = .comment ∧
      e.attached = some comment ∧ e.bare = b.entry.bare := by
  unfold joined? at h
  split at h
  · rename_i hstop
    refine ⟨hstop, ?_⟩
    unfold merged? at h
    split at h
    case h_1 found _ ha hb | h_2 found _ ha hb =>
      split at h
      · rename_i hlevel
        obtain rfl := Option.some.inj h
        exact ⟨found, ha, hlevel, rfl, by rw [hb]; rfl⟩
      · cases h
    case h_3 => cases h
  · cases h

/-- Nothing is joined with a comment below it. -/
theorem joined?_comment {a b : Item} {comment : Comment} (hb : b.entry = .comment comment) :
    joined? a b = none := by
  simp [joined?, merged?, hb]

/-- A comment of the first level joins a message or a term that starts where it ends. -/
theorem joined?_ne_none {a b : Item} {comment : Comment} (ha : a.entry = .comment comment)
    (hlevel : comment.level = .comment) (hstop : a.stop = b.start)
    (hb : (∃ m, b.entry = .message m) ∨ ∃ t, b.entry = .term t) : joined? a b ≠ none := by
  rcases hb with ⟨m, hb⟩ | ⟨t, hb⟩
  · simp [joined?, merged?, ha, hb, hlevel, hstop]
  · simp [joined?, merged?, ha, hb, hlevel, hstop]

/-- Weaving loses no item and changes no order: taken apart again, the entries are the items. -/
theorem flatMap_parts_weave {list : List Item} (h : ∀ x ∈ list, x.entry.parts = [x.entry]) :
    (weave list).flatMap Entry.parts = list.map Item.entry := by
  rw [← attachComments_eq_weave h, attachComments_parts h]

/-- An item that is joined with none of its neighbours stands alone. -/
theorem standsAs_alone {before after : List Item} {item : Item}
    (hparts : ∀ x ∈ before ++ item :: after, x.entry.parts = [x.entry])
    (hbefore : ∀ a, before.getLast? = some a → joined? a item = none)
    (hafter : ∀ b, after.head? = some b → joined? item b = none) :
    StandsAs (weave (before ++ item :: after)) before item after none := by
  obtain ⟨hattached, hbare⟩ := Entry.attached_of_parts (hparts item (by simp))
  refine ⟨weave before, item.entry, weave after, ?_, hbare, hattached, ?_, ?_⟩
  · have hright : weave ([item] ++ after) = weave [item] ++ weave after := by
      refine weave_append fun a ha => ?_
      obtain rfl := Option.some.inj ha
      exact hafter
    rw [weave_append fun a ha b hb => ?_, ← List.singleton_append, hright]
    · rfl
    · obtain rfl := Option.some.inj hb
      exact hbefore a ha
  · simpa using flatMap_parts_weave fun x hx => hparts x (by simp [hx])
  · exact flatMap_parts_weave fun x hx => hparts x (by simp [hx])

/-- An item that is joined with the one before it takes that one as its comment. -/
theorem standsAs_joined {before after : List Item} {a item : Item} {e : Entry}
    (hparts : ∀ x ∈ before ++ a :: item :: after, x.entry.parts = [x.entry])
    (h : joined? a item = some e) :
    StandsAs (weave (before ++ a :: item :: after)) (before ++ [a]) item after e.attached := by
  obtain ⟨-, comment, ha, -, hattached, hbare⟩ := joined?_cases h
  obtain ⟨-, hitem⟩ := Entry.attached_of_parts (hparts item (by simp))
  refine ⟨weave before, e, weave after, ?_, hbare.trans hitem, rfl, ?_, ?_⟩
  · rw [weave_append fun x _ b hb => ?_, weave, h]
    obtain rfl := Option.some.inj hb
    exact joined?_comment ha
  · have habove : (weave before).flatMap Entry.parts = before.map Item.entry :=
      flatMap_parts_weave fun x hx => hparts x (by simp [hx])
    simp [habove, hattached, ha]
  · exact flatMap_parts_weave fun x hx => hparts x (by simp [hx])

/-- An item that no item below it takes stands as an entry, with the item above it attached if those
two are joined. -/
theorem exists_standsAs {before after : List Item} {item : Item}
    (hparts : ∀ x ∈ before ++ item :: after, x.entry.parts = [x.entry])
    (hafter : ∀ b, after.head? = some b → joined? item b = none) :
    ∃ comment, StandsAs (weave (before ++ item :: after)) before item after comment ∧
      ∀ c, comment = some c ↔
        ∃ a e, before.getLast? = some a ∧ a.entry = .comment c ∧ joined? a item = some e := by
  by_cases hjoined : ∃ a e, before.getLast? = some a ∧ joined? a item = some e
  · obtain ⟨a, e, hlast, h⟩ := hjoined
    -- the item above is joined, so it is a comment and becomes the attached one
    obtain ⟨first, rfl⟩ := List.getLast?_eq_some_iff.1 hlast
    rw [List.append_assoc, List.singleton_append] at hparts ⊢
    obtain ⟨-, comment, ha, -, hattached, -⟩ := joined?_cases h
    refine ⟨e.attached, standsAs_joined hparts h, fun c => ?_⟩
    rw [hattached]
    constructor
    · rintro ⟨⟩
      exact ⟨a, e, hlast, ha, h⟩
    · rintro ⟨a', e', hlast', ha', -⟩
      obtain rfl : a = a' := Option.some.inj (hlast.symm.trans hlast')
      rw [ha] at ha'
      exact congrArg some (Entry.comment.inj ha')
  · refine ⟨none, standsAs_alone hparts (fun a ha => ?_) hafter, fun c => ?_⟩
    · cases h : joined? a item with
      | none => rfl
      | some e => exact absurd ⟨a, e, ha, h⟩ hjoined
    · constructor
      · rintro ⟨⟩
      · rintro ⟨a, e, hlast, -, h⟩
        exact absurd ⟨a, e, hlast, h⟩ hjoined

/-! ## The comments of a source -/

/-- A source that is not too large becomes what its items make. -/
theorem parse_eq_weave_items {settings : ParserSettings} {source : List Char}
    (hsize : settings.maxSourceSize = 0 ∨ utf8Length source ≤ settings.maxSourceSize) :
    (Resource.parse settings source).entries =
      weave (items (entryTwice settings.maxNestingDepth) settings.maxParseErrors
        (unifyLineEnds source)) := by
  rw [Resource.parse, Resource.parseBy, if_neg (by omega)]
  rw [Rule.ext_run (entryTwice_run settings.maxNestingDepth)]
  exact attachComments_eq_weave (items_laidOut _ _ _).2

/-- **No comment is lost, doubled or moved.**  The entries of a source that is not too large are its
items in their order, each attached comment taken as the item before its entry.  A message or term
carries a comment exactly if the item before it is a comment of the first level that ends where it
starts; comments of other levels, comments above a blank line, and those above junk or another
comment or at the end stand alone. -/
theorem parse_comments_placed (settings : ParserSettings) (source : List Char)
    (hsize : settings.maxSourceSize = 0 ∨ utf8Length source ≤ settings.maxSourceSize) :
    let text := unifyLineEnds source
    let rule := entryTwice settings.maxNestingDepth
    let list := items rule settings.maxParseErrors text
    let entries := (Resource.parse settings source).entries
    LaidOut rule text list ∧
    entries.flatMap Entry.parts = list.map Item.entry ∧
    ∀ before item after, list = before ++ item :: after →
      ((∃ m, item.entry = .message m) ∨ (∃ t, item.entry = .term t) →
        ∃ comment, StandsAs entries before item after comment ∧
          ∀ c, comment = some c ↔ c.level = .comment ∧
            ∃ a, before.getLast? = some a ∧ a.entry = .comment c ∧ a.stop = item.start) ∧
      ∀ c, item.entry = .comment c →
        (c.level ≠ .comment ∨ ∀ b, after.head? = some b →
          b.entry.isJunk = true ∨ (∃ c', b.entry = .comment c') ∨ item.stop ≠ b.start) →
        StandsAs entries before item after none := by
  intro text rule list entries
  have hrule : rule = entryWithin settings.maxNestingDepth := Rule.ext_run (entryTwice_run _)
  obtain ⟨hlaid, hparts⟩ : LaidOut rule text list ∧
      ∀ item ∈ list, item.entry.parts = [item.entry] := by
    show LaidOut rule text (items rule _ text) ∧ ∀ item ∈ items rule _ text, _
    rw [hrule]
    exact items_laidOut _ _ _
  have hentries : entries = weave list := parse_eq_weave_items hsize
  rw [hentries]
  refine ⟨hlaid, flatMap_parts_weave hparts, fun before item after hlist => ⟨fun hkind => ?_, ?_⟩⟩
  · rw [hlist] at hparts ⊢
    -- a message or a term is no comment, so it joins nothing below it
    have hafter : ∀ b, joined? item b = none := joined?_eq_none fun found hfound => by
      rcases hkind with ⟨m, hm⟩ | ⟨t, ht⟩
      · cases hfound.symm.trans hm
      · cases hfound.symm.trans ht
    obtain ⟨comment, hstands, hiff⟩ := exists_standsAs hparts fun b _ => hafter b
    refine ⟨comment, hstands, fun c => (hiff c).trans ⟨?_, ?_⟩⟩
    · rintro ⟨a, e, hlast, ha, h⟩
      obtain ⟨hstop, c', ha', hlevel, -⟩ := joined?_cases h
      obtain rfl := Entry.comment.inj (ha.symm.trans ha')
      exact ⟨hlevel, a, hlast, ha, hstop⟩
    · rintro ⟨hlevel, a, hlast, ha, hstop⟩
      obtain ⟨e, he⟩ := Option.ne_none_iff_exists'.1 (joined?_ne_none ha hlevel hstop hkind)
      exact ⟨a, e, hlast, ha, he⟩
  · intro c hc halone
    rw [hlist] at hparts ⊢
    -- nothing joins a comment from above; each of the conditions keeps it from joining below
    refine standsAs_alone hparts (fun _ _ => joined?_comment hc) fun b hb => ?_
    cases h : joined? item b with
    | none => rfl
    | some e =>
      obtain ⟨hstop, c', hc', hlevel, -⟩ := joined?_cases h
      obtain rfl := Entry.comment.inj (hc.symm.trans hc')
      rcases halone with hother | hnext
      · exact absurd hlevel hother
      rcases hnext b hb with hjunk | ⟨c', hb'⟩ | hne
      · simp [(joined?_isJunk h).2.1] at hjunk
      · simp [joined?_comment hb'] at h
      · exact absurd hstop hne

/-- The first comment is attached; the second one stands above a blank line, the third one above
junk that is the last to be read. -/
theorem parse_comments_placed_junk :
    let settings : ParserSettings :=
      { maxNestingDepth := 2, maxParseErrors := 1, maxSourceSize := 64 }
    let source := "# a\nhi = Hi\n# b\n\nbye = Bye\n# c\n\x7d\n# d\n".toList
    let entries := (Resource.parse settings source).entries
    (settings.maxSourceSize = 0 ∨ utf8Length source ≤ settings.maxSourceSize) ∧
      entries.map Entry.attached = [some ⟨.comment, "a"⟩, none, none, none, none] ∧
        entries.flatMap Entry.parts =
          (items (entryTwice 2) 1 (unifyLineEnds source)).map Item.entry := by
  refine ⟨.inr (by decide), ?_, (parse_comments_placed _ _ (.inr (by decide))).2.1⟩
  decide +kernel

end Fluent
