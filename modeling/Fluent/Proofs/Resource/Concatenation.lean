/-
# Sources one behind the other

Two sources with an empty line between them are read as if each stood alone, if the first one has no
junk and the second one starts at the start of an entry: no rule looks beyond an empty line, a
comment that waits at its end stands alone, and the second source only lies further on.

* `Segmented.shift` : the segments of a text, where bytes are put before it;
* `Segmented.append` : the segments of a text with an empty line and a further text behind it;
* `itemsOf_append` : the items of both sources together;
* `parse_append` : their entries.
-/
import Fluent.Proofs.Grammar.PlacedRules
import Fluent.Proofs.Resource.RoundTrip

namespace Fluent

open Grammar

/-! ## Places further on -/

/-- The span behind `ahead` more bytes. -/
def Span.shift (ahead : Nat) (span : Span) : Span :=
  ⟨span.start + ahead, span.stop + ahead⟩

def Annotation.shift (ahead : Nat) (a : Annotation) : Annotation :=
  { a with span := a.span.shift ahead }

def Junk.shift (ahead : Nat) (junk : Junk) : Junk :=
  { junk with
    annotations := junk.annotations.map fun a => a.shift ahead
    span := junk.span.shift ahead }

/-- The entry behind `ahead` more bytes; only junk tells where it lies. -/
def Entry.shift (ahead : Nat) : Entry → Entry
  | .junk found => .junk (found.shift ahead)
  | e => e

def Item.shift (ahead : Nat) (item : Item) : Item :=
  ⟨item.start + ahead, item.stop + ahead, item.entry.shift ahead⟩

/-- The annotation of a failure further on is the annotation, moved by as much. -/
theorem annotationOf_shift (failure : ParseFailure) (size ahead : Nat) :
    annotationOf (failure.shift ahead) (size + ahead) =
      (annotationOf failure size).shift ahead := by
  have hstart : min (failure.position + ahead) (size + ahead) =
      min failure.position size + ahead := by omega
  have hstop : min (min failure.position size + ahead + 1) (size + ahead) =
      min (min failure.position size + 1) size + ahead := by omega
  rw [annotationOf, annotationOf, Annotation.shift, Span.shift]
  simp only [ParseFailure.shift, hstart, hstop]
  rfl

/-- Junk further on is the junk, moved by as much. -/
theorem junkOf_shift (failure : ParseFailure) (size : Nat) (front before seg : List Char) :
    Entry.shift (utf8Length front) (.junk (junkOf failure size before seg)) =
      .junk (junkOf (failure.shift (utf8Length front)) (size + utf8Length front)
        (front ++ before) seg) := by
  have hpos : ∀ text : List Char,
      utf8Length (front ++ text) = utf8Length text + utf8Length front := by
    intro text
    rw [utf8Length_append, Nat.add_comm]
  rw [Entry.shift, Junk.shift, junkOf, junkOf, annotationOf_shift, List.append_assoc, hpos, hpos]
  rfl

/-- What is read as an entry tells no place. -/
theorem entry_shift {deep : Nested} {c stop : Cursor} {found : Entry}
    (h : entry deep c = .ok (found, stop)) (ahead : Nat) : found.shift ahead = found := by
  cases found with
  | junk junk => exact absurd rfl (entry_ne_junk h junk)
  | message | term | comment => rfl

/-! ## Weaving -/

/-- Entries that are moved together merge as before. -/
theorem merged?_shift (ahead : Nat) (e e' : Entry) :
    merged? (e.shift ahead) (e'.shift ahead) = (merged? e e').map (Entry.shift ahead) := by
  cases e with
  | comment found =>
    cases e' with
    | message | term =>
      show (if found.level = .comment then _ else _) = Option.map _ (if _ then _ else _)
      split
      · rfl
      · rfl
    | comment | junk => rfl
  | message | term | junk => rfl

/-- Items further on are joined as they were. -/
theorem joined?_shift (ahead : Nat) (a b : Item) :
    joined? (a.shift ahead) (b.shift ahead) = (joined? a b).map (Entry.shift ahead) := by
  have hplace : (a.shift ahead).stop = (b.shift ahead).start ↔ a.stop = b.start :=
    Nat.add_right_cancel_iff
  rw [joined?, joined?]
  simp only [hplace]
  split
  · exact merged?_shift ahead a.entry b.entry
  · rfl

/-- Items that are moved together are woven as before. -/
theorem weave_shift (ahead : Nat) (list : List Item) :
    weave (list.map (Item.shift ahead)) = (weave list).map (Entry.shift ahead) := by
  fun_induction weave list with
  | case1 => rfl
  | case2 a => rfl
  | case3 a b rest e he ih =>
    rw [List.map_cons, List.map_cons, weave, joined?_shift, he]
    exact congrArg (_ :: ·) ih
  | case4 a b rest he ih =>
    rw [List.map_cons, List.map_cons, weave, joined?_shift, he]
    exact congrArg (_ :: ·) ih

/-- Where the last item ends does not matter. -/
theorem weave_last (first : List Item) (a : Item) (stop : Nat) :
    weave (first ++ [{ a with stop := stop }]) = weave (first ++ [a]) := by
  fun_induction weave first with
  | case1 => rfl
  | case2 x => rfl
  | case3 x y rest e he ih =>
    rw [List.cons_append, List.cons_append, List.cons_append, List.cons_append, weave, weave, he]
    exact congrArg (e :: ·) ih
  | case4 x y rest he ih =>
    rw [List.cons_append, List.cons_append, List.cons_append, List.cons_append, weave, weave, he]
    exact congrArg (x.entry :: ·) ih

/-! ## Segments further on -/

namespace Segmented

variable {deep : Nested} {size : Nat} {before rest : List Char} {items : List Item}

/-- A gap stays one when whole lines are put in front of the text. -/
theorem gap_prepend {front before gap after : List Char} (h : Gap before gap after)
    (hstart : LineStart front) : Gap (front ++ before) gap after := by
  refine ⟨h.blank, ?_, h.notBlank⟩
  rw [List.append_assoc]
  exact hstart.append h.lineStart

/-- Where bytes are put before a text, its segments are the same ones further on. -/
theorem shift (hdeep : ∀ ahead, deep.Placed ⟨ahead, []⟩) (front : List Char)
    (hstart : LineStart front) (h : Segmented deep size before rest items) :
    Segmented deep (size + utf8Length front) (front ++ before) rest
      (items.map (Item.shift (utf8Length front))) := by
  have hitem : ∀ (before seg : List Char) (e : Entry),
      (itemOf before seg e).shift (utf8Length front) =
        itemOf (front ++ before) seg (e.shift (utf8Length front)) := by
    intro before seg e
    simp only [itemOf, Item.shift, utf8Length_append]
    congr 1 <;> omega
  have hcursor : ∀ (rest before : List Char),
      Placement.cursor ⟨utf8Length front, []⟩ ⟨rest, utf8Length before⟩ =
        ⟨rest, utf8Length (front ++ before)⟩ := by
    intro rest before
    rw [Placement.cursor, List.append_nil, utf8Length_append, Nat.add_comm]
  induction h with
  | blank hgap => exact .blank hgap
  | @entry before gap body ending after found items hgap hread hend _ ih =>
    have hplaced := ((hdeep (utf8Length front)).entry).ok _ hread
    rw [hcursor, Placement.read, hcursor] at hplaced
    rw [List.map_cons, hitem, entry_shift hread, ← List.append_assoc front before gap]
    refine .entry (gap_prepend hgap hstart) ?_ hend ?_
    · simpa only [List.append_assoc] using hplaced
    · simpa only [List.append_assoc] using ih
  | @junk before gap seg after failure items hgap hread hjunk _ ih =>
    have hplaced := ((hdeep (utf8Length front)).entryLine rfl).error rfl _ hread
    rw [hcursor] at hplaced
    rw [List.map_cons, hitem, junkOf_shift, ← List.append_assoc front before gap]
    refine .junk (gap_prepend hgap hstart) ?_ hjunk ?_
    · simpa only [List.append_assoc] using hplaced
    · simpa only [List.append_assoc] using ih

/-- Blanks may be put before a text: they are skipped with those that it starts with. -/
theorem prepend_blank {gap : List Char} (hgap : Blank gap)
    (h : Segmented deep size (before ++ gap) rest items) :
    Segmented deep size before (gap ++ rest) items := by
  generalize hwhole : before ++ gap = whole at h
  cases h with
  | blank hrest => exact .blank (hgap.append hrest)
  | @entry _ more body ending after found items hmore hread hend hitems =>
    subst hwhole
    have hmore' : Gap before (gap ++ more) (body ++ ending ++ after) :=
      ⟨hgap.append hmore.blank, by rw [← List.append_assoc]; exact hmore.lineStart, hmore.notBlank⟩
    rw [List.append_assoc before gap more] at hread hitems ⊢
    rw [← List.append_assoc gap more]
    exact .entry hmore' hread hend hitems
  | @junk _ more seg after failure items hmore hread hjunk hitems =>
    subst hwhole
    have hmore' : Gap before (gap ++ more) (seg ++ after) :=
      ⟨hgap.append hmore.blank, by rw [← List.append_assoc]; exact hmore.lineStart, hmore.notBlank⟩
    rw [List.append_assoc before gap more] at hread hitems ⊢
    rw [← List.append_assoc gap more]
    exact .junk hmore' hread hjunk hitems

/-- Where no text is left there are no segments. -/
theorem eq_nil (h : Segmented deep size before [] items) : items = [] := by
  generalize hrest : ([] : List Char) = rest at h
  cases h with
  | blank => rfl
  | @entry _ gap body ending after found items hgap hread =>
    rw [List.append_assoc] at hread
    have hne := body_ne_nil hread
    simp_all
  | @junk _ gap seg after failure items hgap hread hjunk =>
    have hne := hjunk.ne_nil
    simp_all

/-- A text without junk is cut as before where an empty line and the start of an entry follow it;
but a line end behind its last entry belongs to that entry. -/
theorem append (hdeep : ∀ p : Placement, p.Apart → deep.Placed p) {size' : Nat}
    (h : Segmented deep size before rest items)
    (hjunk : ∀ item ∈ items, item.entry.isJunk = false) {ch : Char} {text : List Char}
    (hch : startsEntry ch = true) {later : List Item}
    (hlater : Segmented deep size' (before ++ rest ++ ['\n', '\n']) (ch :: text) later) :
    ∃ items', Segmented deep size' before (rest ++ '\n' :: '\n' :: ch :: text) (items' ++ later) ∧
      (items' = items ∨ ∃ front a, items = front ++ [a] ∧
        items' = front ++ [{ a with stop := a.stop + 1 }]) := by
  have hfeed : Blank ['\n'] := by simp [Blank, isBlank]
  induction h with
  | @blank before gap hgap =>
    have hfirst : Segmented deep size' (before ++ gap ++ ['\n']) ('\n' :: ch :: text) later :=
      prepend_blank hfeed (by simpa using hlater)
    exact ⟨[], prepend_blank hgap (prepend_blank hfeed hfirst), .inl rfl⟩
  | @entry before gap body ending after found items hgap hread hend hitems ih =>
    -- the entry is read up to the same place, whether something follows or not
    have hplaced := ((hdeep ⟨0, '\n' :: '\n' :: ch :: text⟩ (.entry 0 text hch)).entry).ok _ hread
    rw [Placement.read, Placement.cursor, Placement.cursor, Nat.add_zero, Nat.add_zero] at hplaced
    have hgap' : Gap before gap (body ++ ending ++ after ++ '\n' :: '\n' :: ch :: text) :=
      ⟨hgap.blank, hgap.lineStart, fun hblank => hgap.notBlank (blankLine_of_append hblank)⟩
    rcases hend with rfl | ⟨rfl, rfl⟩
    · obtain ⟨items', hseg, hsame⟩ :=
        ih (fun item hitem => hjunk item (List.mem_cons_of_mem _ hitem)) (by simpa using hlater)
      refine ⟨itemOf (before ++ gap) (body ++ ['\n']) found :: items', ?_, ?_⟩
      · rw [List.append_assoc gap, List.append_assoc _ after, List.cons_append]
        refine .entry ?_ ?_ (.inl rfl) hseg
        · simpa only [List.append_assoc] using hgap'
        · simpa only [List.append_assoc] using hplaced
      · rcases hsame with rfl | ⟨front, a, rfl, rfl⟩
        · exact .inl rfl
        · exact .inr ⟨_ :: front, a, rfl, rfl⟩
    · obtain rfl := hitems.eq_nil
      refine ⟨[itemOf (before ++ gap) (body ++ ['\n']) found], ?_, .inr ⟨[], _, rfl, ?_⟩⟩
      · have hfirst : Segmented deep size' (before ++ gap ++ (body ++ ['\n'])) ('\n' :: ch :: text)
            later := prepend_blank hfeed (by simpa using hlater)
        have hwhole : gap ++ (body ++ [] ++ []) ++ '\n' :: '\n' :: ch :: text =
            gap ++ (body ++ ['\n'] ++ '\n' :: ch :: text) := by simp
        rw [hwhole]
        refine .entry ?_ ?_ (.inl rfl) hfirst
        · simpa using hgap'
        · simpa using hplaced
      · have hsize : utf8Length (before ++ gap ++ (body ++ ['\n'])) =
            utf8Length (before ++ gap ++ (body ++ [])) + 1 := by
          simp only [utf8Length_append, utf8Length_cons, utf8Length_nil, Nat.add_assoc]
          rfl
        rw [itemOf, itemOf, hsize]
        rfl
  | junk => exact absurd (hjunk _ List.mem_cons_self) (by simp [itemOf, Entry.isJunk])

end Segmented

/-! ## Sources -/

/-- The items of both sources: those of the second one lie further on, and a line end may belong to
the last item of the first one. -/
theorem itemsOf_append (limit : Nat) {a text : List Char} {ch : Char} (ha : '\r' ∉ a)
    (hb : '\r' ∉ ch :: text) (hjunk : ∀ item ∈ itemsOf limit a, item.entry.isJunk = false)
    (hch : startsEntry ch = true) :
    ∃ items', itemsOf limit (a ++ '\n' :: '\n' :: ch :: text) =
        items' ++ (itemsOf limit (ch :: text)).map (Item.shift (utf8Length a + 2)) ∧
      (items' = itemsOf limit a ∨ ∃ front last, itemsOf limit a = front ++ [last] ∧
        items' = front ++ [{ last with stop := last.stop + 1 }]) := by
  have hplaced : ∀ p : Placement, p.Apart → (nested limit limit).Placed p :=
    fun p hp => nested_placed hp limit limit
  have hclean : '\r' ∉ a ++ '\n' :: '\n' :: ch :: text := by
    simp only [List.mem_append, List.mem_cons, not_or] at hb ⊢
    exact ⟨ha, by decide, by decide, hb⟩
  have hsega := segmented_itemsOf limit a
  have hsegb := segmented_itemsOf limit (ch :: text)
  rw [unifyLineEnds_eq_self ha] at hsega
  rw [unifyLineEnds_eq_self hb] at hsegb
  -- the second source lies behind the first one and two line ends
  have hfront : utf8Length (a ++ ['\n', '\n']) = utf8Length a + 2 := utf8Length_append ..
  have hlater := hsegb.shift (fun ahead => hplaced _ (.nothing ahead)) (a ++ ['\n', '\n'])
    (.inr (by simp))
  rw [hfront, List.append_nil] at hlater
  obtain ⟨items', hseg, hsame⟩ := hsega.append hplaced hjunk hch hlater
  have hsize : utf8Length (ch :: text) + (utf8Length a + 2) =
      utf8Length (a ++ '\n' :: '\n' :: ch :: text) := by
    rw [← hfront, Nat.add_comm, ← utf8Length_append, List.append_assoc]
    rfl
  rw [hsize] at hseg
  refine ⟨items', ?_, hsame⟩
  conv => lhs; rw [itemsOf]
  rw [unifyLineEnds_eq_self hclean]
  exact hseg.items_eq

/-- **Sources with an empty line between them are read one by one.**  The first one has no junk, the
second one starts at the start of an entry and may be broken from there on. -/
theorem parse_append (limit : Nat) {a b : List Char} (ha : '\r' ∉ a) (hb : '\r' ∉ b)
    (hjunk : (Resource.parse (.nestingOnly limit) a).junk = []) {ch : Char}
    (hfirst : b.head? = some ch) (hch : startsEntry ch = true) :
    (Resource.parse (.nestingOnly limit) (a ++ '\n' :: '\n' :: b)).entries =
      (Resource.parse (.nestingOnly limit) a).entries ++
        (Resource.parse (.nestingOnly limit) b).entries.map (Entry.shift (utf8Length a + 2)) := by
  obtain ⟨text, rfl⟩ := List.head?_eq_some_iff.1 hfirst
  obtain ⟨items', hitems, hsame⟩ := itemsOf_append limit ha hb (itemsOf_isJunk hjunk) hch
  have hbounds : ∀ item ∈ itemsOf limit a, item.stop ≤ utf8Length a := by
    have hseg := segmented_itemsOf limit a
    rw [unifyLineEnds_eq_self ha] at hseg
    exact fun item hitem => (hseg.bounds.1 item hitem).2.2
  -- the last item of the first source may take a line end, and the next one starts behind another
  have hapart : ∀ x ∈ items',
      ∀ y ∈ (itemsOf limit (ch :: text)).map (Item.shift (utf8Length a + 2)),
        x.stop ≠ y.start := by
    intro x hx y hy
    have hstop : x.stop ≤ utf8Length a + 1 := by
      rcases hsame with rfl | ⟨front, last, hlast, rfl⟩
      · exact Nat.le_succ_of_le (hbounds x hx)
      · rw [hlast] at hbounds
        rcases List.mem_append.1 hx with hx | hx
        · exact Nat.le_succ_of_le (hbounds x (List.mem_append_left _ hx))
        · obtain rfl := List.mem_singleton.1 hx
          exact Nat.succ_le_succ (hbounds last (by simp))
    obtain ⟨item, -, rfl⟩ := List.mem_map.1 hy
    show x.stop ≠ item.start + (utf8Length a + 2)
    omega
  have hweave : weave items' = weave (itemsOf limit a) := by
    rcases hsame with rfl | ⟨front, x, hx, rfl⟩
    · rfl
    · rw [hx, weave_last]
  have hparted : ∀ x, items'.getLast? = some x → ∀ y,
      ((itemsOf limit (ch :: text)).map (Item.shift (utf8Length a + 2))).head? = some y →
        joined? x y = none := fun x hx y hy =>
    if_neg (hapart x (List.mem_of_getLast? hx) y (List.mem_of_head? hy))
  rw [parse_eq_weave, parse_eq_weave, parse_eq_weave, hitems, weave_append hparted, hweave,
    weave_shift]

/-- The first source ends with a comment that waits, and the second one starts with junk and a
message. -/
theorem parse_append_waiting :
    let a := "hello = Hi\n# waiting".toList
    let b := "broken\nterm = \x7b\nbye = Bye".toList
    '\r' ∉ a ∧ '\r' ∉ b ∧ (Resource.parse (.nestingOnly 1) a).junk = [] ∧
      (b.head? = some 'b' ∧ startsEntry 'b' = true) ∧
      (Resource.parse (.nestingOnly 1) (a ++ '\n' :: '\n' :: b)).entries =
        (Resource.parse (.nestingOnly 1) a).entries ++
          (Resource.parse (.nestingOnly 1) b).entries.map (Entry.shift (utf8Length a + 2)) := by
  have ha : '\r' ∉ "hello = Hi\n# waiting".toList := by decide +kernel
  have hb : '\r' ∉ "broken\nterm = \x7b\nbye = Bye".toList := by decide +kernel
  have hjunk : (Resource.parse (.nestingOnly 1) "hello = Hi\n# waiting".toList).junk = [] := by
    decide +kernel
  have hfirst : "broken\nterm = \x7b\nbye = Bye".toList.head? = some 'b' := by decide +kernel
  have hch : startsEntry 'b' = true := by decide
  exact ⟨ha, hb, hjunk, ⟨hfirst, hch⟩, parse_append 1 ha hb hjunk hfirst hch⟩

end Fluent
