/-
# Deeper indentation is not seen

A source that is one message or term stays the same when its lines behind the first one are indented
further, all by the same number of spaces: those of its patterns, its attributes and its variants,
and those within placeables and calls.

* `Nested.Deepens.entry` : an entry up to the end of its last pattern;
* `parse_eq_singleton_of_size` : a source of one entry, with blanks behind it;
* `parse_deepen` : the source indented further is the same resource.
-/
import Fluent.Proofs.Grammar.DeepenedRules
import Fluent.Proofs.Resource.Accounting
import Fluent.Proofs.Resource.RoundTrip
import Fluent.Proofs.Resource.Segments

namespace Fluent

open Grammar

namespace Grammar

/-! ## Messages and terms -/

/-- If a pattern may end behind attributes, it may in front of them. -/
theorem attributesFrom_closes {deep : Nested} {before list : List Attribute} {c stop : Cursor}
    (h : attributesFrom deep before c = .ok (list, stop)) (hstop : Closes stop) : Closes c := by
  rw [attributesFrom_eq] at h
  split at h
  · rename_i hpoint
    exact closes_of_current hpoint.2 rfl
  · obtain ⟨-, rfl⟩ := Prod.mk.inj (Except.ok.inj h)
    exact hstop

namespace Nested.Deepens

variable {k : Nat} {deep : Nested} {c d : Cursor} (h : deep.Deepens k)
include h

theorem assigned (hs : Deeper k c.rest d.rest) :
    CarriesClosed k (Grammar.assigned deep c) (Grammar.assigned deep d) :=
  ((deeper_linewise k).expectChar hs.skipBlankInline.2 (by decide)).bindClosed fun _ _ _ hstart =>
    h.pattern hstart.skipBlankInline.2

theorem oneAttribute (hs : Deeper k c.rest d.rest) :
    CarriesClosed k (Grammar.oneAttribute deep c) (Grammar.oneAttribute deep d) := by
  refine ((deeper_linewise k).expectChar hs (by decide)).bindClosed fun start start' _ hstart => ?_
  refine ((deeper_linewise k).identifier hstart).bindClosed ?_
  rintro ⟨name, point⟩ ⟨name', point'⟩ - ⟨heq, hpoint⟩
  obtain rfl : name = name' := heq
  refine (h.assigned hpoint).bindClosed ?_ fun value stop stop' _ hstop => ?_
  · intro value stop a last hread hlast
    cases value with
    | none => exact absurd hread fail_ne_ok
    | some value =>
      obtain ⟨-, rfl⟩ := Prod.mk.inj (Except.ok.inj hread)
      exact hlast
  · cases value with
    | none => exact .fail _ _ _
    | some value => exact .ok hstop

/-- A list of attributes is read from the deeper text: each pattern ends before the full stop of
the next one. -/
theorem attributesFrom (before : List Attribute) {c d : Cursor} (hs : Deeper k c.rest d.rest) :
    CarriesClosed k (Grammar.attributesFrom deep before c)
      (Grammar.attributesFrom deep before d) := by
  rw [attributesFrom_eq deep before c, attributesFrom_eq deep before d, hs.current_eq,
    hs.skipBlank.current_eq]
  split
  · refine (h.oneAttribute hs.skipBlank).bindClosed ?_ fun a stop stop' hread hstop => ?_
    · exact fun a stop list last hread hlast => attributesFrom_closes hread hlast
    · have hlt : stop.rest.length < c.rest.length := Cursor.length_lt_of_lt
        (Cursor.lt_of_le_of_lt (Cursor.le_skipBlank c) (oneAttribute_lt hread))
      exact attributesFrom (a :: before) hstop
  · exact .ok hs
termination_by c.rest.length

theorem message (hs : Deeper k c.rest d.rest) :
    CarriesClosed k (Grammar.message deep c) (Grammar.message deep d) := by
  refine ((deeper_linewise k).identifier hs).bindClosed ?_
  rintro ⟨name, point⟩ ⟨name', point'⟩ - ⟨heq, hpoint⟩
  obtain rfl : name = name' := heq
  refine (h.assigned hpoint).bindClosed ?_ fun value mid mid' _ hmid => ?_
  · intro value mid m last hread hlast
    obtain ⟨⟨list, stop⟩, hlist, hread⟩ := bind_eq_ok.1 hread
    dsimp only at hread
    split at hread
    · exact absurd hread fail_ne_ok
    · obtain ⟨-, rfl⟩ := Prod.mk.inj (Except.ok.inj hread)
      exact attributesFrom_closes hlist hlast
  refine (h.attributesFrom [] hmid).bindClosed ?_ fun list stop stop' _ hstop => ?_
  · intro list stop m last hread hlast
    dsimp only at hread
    split at hread
    · exact absurd hread fail_ne_ok
    · obtain ⟨-, rfl⟩ := Prod.mk.inj (Except.ok.inj hread)
      exact hlast
  · dsimp only
    split
    · exact .fail _ _ _
    · exact .ok hstop

theorem term (hs : Deeper k c.rest d.rest) :
    CarriesClosed k (Grammar.term deep c) (Grammar.term deep d) := by
  refine ((deeper_linewise k).expectChar hs (by decide)).bindClosed fun start start' _ hstart => ?_
  refine ((deeper_linewise k).identifier hstart).bindClosed ?_
  rintro ⟨name, point⟩ ⟨name', point'⟩ - ⟨heq, hpoint⟩
  obtain rfl : name = name' := heq
  refine (h.assigned hpoint).bindClosed ?_ fun value mid mid' _ hmid => ?_
  · intro value mid t last hread hlast
    cases value with
    | none => exact absurd hread fail_ne_ok
    | some value =>
      obtain ⟨⟨list, stop⟩, hlist, hread⟩ := bind_eq_ok.1 hread
      obtain ⟨-, rfl⟩ := Prod.mk.inj (Except.ok.inj hread)
      exact attributesFrom_closes hlist hlast
  cases value with
  | none => exact .fail _ _ _
  | some value =>
    refine (h.attributesFrom [] hmid).bindClosed ?_ fun list stop stop' _ hstop => .ok hstop
    intro list stop t last hread hlast
    obtain ⟨-, rfl⟩ := Prod.mk.inj (Except.ok.inj hread)
    exact hlast

/-- A message or a term is read again. -/
theorem entry (hmark : c.current ≠ some '#') (hs : Deeper k c.rest d.rest) :
    CarriesClosed k (Grammar.entry deep c) (Grammar.entry deep d) := by
  have hwrapped : ∀ {α : Type} {x y : Reading (α × Cursor)} (wrap : α → Entry),
      CarriesClosed k x y → CarriesClosed k (x >>= fun p => .ok (wrap p.1, p.2))
        (y >>= fun p => .ok (wrap p.1, p.2)) := by
    intro α x y wrap hxy
    refine hxy.bindClosed (fun a stop e last hread hlast => ?_)
      fun a stop stop' _ hstop => .ok hstop
    obtain ⟨-, rfl⟩ := Prod.mk.inj (Except.ok.inj hread)
    exact hlast
  rw [Grammar.entry, Grammar.entry, hs.current_eq, if_neg hmark, if_neg hmark]
  split
  · exact hwrapped .term (h.term hs)
  split
  · exact hwrapped .message (h.message hs)
  · exact Carries.closed (.error _ _)

end Nested.Deepens

end Grammar

/-! ## Sources of one entry -/

/-- A single entry without a comment stays as it is. -/
theorem attachComments_singleton {item : Item} (h : item.entry.parts = [item.entry]) :
    attachComments [item] = [item.entry] := by
  obtain ⟨hmessage, hterm⟩ := Entry.comment_eq_none_of_parts h
  obtain ⟨start, stop, found⟩ := item
  cases found with
  | message m => exact congrArg (fun m => [Entry.message m]) (hmessage m rfl)
  | term t => exact congrArg (fun t => [Entry.term t]) (hterm t rfl)
  | comment c =>
    show (Attaching.flush (if c.level = .comment then _ else _)).reverse = _
    split <;> rfl
  | junk j => rfl

/-- A source that starts with an entry and holds nothing but blanks behind it, if it is not too
large. -/
theorem parse_eq_singleton_of_size {settings : ParserSettings} {text : List Char} {found : Entry}
    {last : Cursor} (hsize : settings.maxSourceSize = 0 ∨ utf8Length text ≤ settings.maxSourceSize)
    (hclean : '\r' ∉ text) (hline : ¬BlankLine text)
    (hread : (entryWithin settings.maxNestingDepth).run (.ofText text) = .ok (found, last))
    (hlast : Blank last.rest) : Resource.parse settings text = ⟨[found]⟩ := by
  have hitems : items (entryWithin settings.maxNestingDepth) settings.maxParseErrors text =
      [⟨0, last.pos, found⟩] := by
    rw [items, skipBlankLines_eq_self hline, itemsFrom_ok hread, itemsFrom,
      dif_pos (skipBlankLines_of_blank hlast)]
    rfl
  obtain ⟨mid, -, hentry, -⟩ := entryLine_eq_ok_iff.1 hread
  have hallowed : ¬(settings.maxSourceSize ≠ 0 ∧ settings.maxSourceSize < utf8Length text) := by
    omega
  rw [Resource.parse, Resource.parseBy, if_neg hallowed, unifyLineEnds_eq_self hclean,
    Rule.ext_run (entryTwice_run settings.maxNestingDepth), hitems,
    attachComments_singleton (entry_parts hentry)]

/-- A text that the rule for entries reads, up to blanks, is parsed as that entry alone. -/
theorem parse_eq_singleton {limit : Nat} {text : List Char} {found : Entry} {last : Cursor}
    (hclean : '\r' ∉ text) (hline : ¬BlankLine text)
    (hread : (entryWithin limit).run (.ofText text) = .ok (found, last)) (hlast : Blank last.rest) :
    Resource.parse (.nestingOnly limit) text = ⟨[found]⟩ :=
  parse_eq_singleton_of_size (.inl rfl) hclean hline hread hlast

/-- A line that starts with something other than a blank is not blank. -/
theorem not_blankLine_of_head {text : List Char} {ch : Char} (hhead : text.head? = some ch)
    (hch : isBlank ch = false) : ¬BlankLine text := by
  obtain ⟨rest, rfl⟩ := List.head?_eq_some_iff.1 hhead
  rw [isBlank, Bool.or_eq_false_iff] at hch
  rw [blankLine_cons (beq_eq_false_iff_ne.1 hch.1)]
  exact beq_eq_false_iff_ne.1 hch.2

/-- If the first part of an entry is no comment, it is the only one. -/
theorem Entry.parts_eq_cons {e first : Entry} {rest : List Entry} (h : e.parts = first :: rest)
    (hfirst : ∀ c, first ≠ .comment c) : rest = [] := by
  cases e with
  | message m =>
    cases hc : m.comment with
    | none => simp_all [Entry.parts]
    | some c =>
      rw [Entry.parts, hc] at h
      exact absurd (List.cons.inj h).1.symm (hfirst c)
  | term t =>
    cases hc : t.comment with
    | none => simp_all [Entry.parts]
    | some c =>
      rw [Entry.parts, hc] at h
      exact absurd (List.cons.inj h).1.symm (hfirst c)
  | comment c => exact (List.cons.inj h).2.symm
  | junk j => exact (List.cons.inj h).2.symm

/-- A source that starts with a message or a term, and is one entry and no junk, holds nothing but
blanks behind the entry. -/
theorem exists_entry_of_single {limit : Nat} {text : List Char} {ch : Char} (hclean : '\r' ∉ text)
    (hhead : text.head? = some ch) (hstart : isBlank ch = false) (hmark : ch ≠ '#')
    (hone : (Resource.parse (.nestingOnly limit) text).entries.length = 1)
    (hjunk : (Resource.parse (.nestingOnly limit) text).junk = []) :
    ∃ found last, (entryWithin limit).run (.ofText text) = .ok (found, last) ∧ Blank last.rest := by
  have hresource : Resource.parse (.nestingOnly limit) text =
      ⟨attachComments (items (entryWithin limit) 0 text)⟩ := by
    rw [parse_nestingOnly, unifyLineEnds_eq_self hclean]
  rw [hresource] at hone hjunk
  have hsegments : Segmented (nested limit limit) (utf8Length text) [] text
      (items (entryWithin limit) 0 text) := segmented_items (nested limit limit) text
  have hparts := attachComments_parts hsegments.parts
  obtain ⟨e, he⟩ : ∃ e, attachComments (items (entryWithin limit) 0 text) = [e] :=
    List.length_eq_one_iff.1 hone
  rw [junk_eq, ← filterMap_junk_parts, hparts] at hjunk
  rw [he, List.flatMap_singleton] at hparts
  generalize items (entryWithin limit) 0 text = list at hparts hjunk hsegments
  -- no blanks stand in front of what is read first
  have hfirst : ∀ {gap rest : List Char}, text = gap ++ rest → Blank gap → gap = [] := by
    intro gap rest htext hgap
    cases gap with
    | nil => rfl
    | cons x gap =>
      rw [htext] at hhead
      obtain rfl := Option.some.inj hhead
      exact absurd (hgap x List.mem_cons_self) (by simp [hstart])
  cases hsegments with
  | blank hgap =>
    obtain rfl := hfirst (List.append_nil _).symm hgap
    cases hhead
  | junk => cases hjunk
  | @entry _ gap body ending after found items hgap hread hend hrest =>
    obtain rfl := hfirst rfl hgap.blank
    have hnoComment : ∀ c, found ≠ .comment c := by
      rintro c rfl
      rcases entry_cases hread with ⟨_, -, hc, -⟩ | ⟨_, hother, -⟩ | ⟨_, hother, -⟩
      · exact hmark (Option.some.inj (hhead.symm.trans hc))
      · cases hother
      · cases hother
    obtain rfl := List.map_eq_nil_iff.1 (Entry.parts_eq_cons hparts hnoComment)
    refine ⟨found, ⟨after, utf8Length (body ++ ending)⟩, entryLine_eq_ok_iff.2 ⟨_, ending, hread,
      ⟨rfl, utf8Length_append body ending⟩, hend⟩, ?_⟩
    cases hrest with
    | blank hblank => exact hblank

/-! ## Deeper indentation -/

/-- **Deeper indentation is not seen.**  A source that starts with a message or a term, and is one
entry and no junk, stays the same resource when all its lines but the first one are indented
further, unless they are blank. -/
theorem parse_deepen (limit k : Nat) {text : List Char} (hclean : '\r' ∉ text)
    (hstart : text.head?.any (fun ch => isIdentifierStart ch || ch == '-') = true)
    (hone : (Resource.parse (.nestingOnly limit) text).entries.length = 1)
    (hjunk : (Resource.parse (.nestingOnly limit) text).junk = []) :
    Resource.parse (.nestingOnly limit) (deepen k text) =
      Resource.parse (.nestingOnly limit) text := by
  obtain ⟨ch, hhead, hch⟩ := Option.any_eq_true _ _ |>.1 hstart
  have hblank : isBlank ch = false := by
    rw [Bool.eq_false_iff]
    intro hblank
    rcases (by simpa [isBlank] using hblank : ch = ' ' ∨ ch = '\n') with rfl | rfl
    · exact absurd hch (by decide)
    · exact absurd hch (by decide)
  have hmark : ch ≠ '#' := by
    rintro rfl
    exact absurd hch (by decide)
  obtain ⟨found, last, hread, hlast⟩ :=
    exists_entry_of_single hclean hhead hblank hmark hone hjunk
  obtain ⟨mid, ending, hentry, hp, hend⟩ := entryLine_eq_ok_iff.1 hread
  -- behind the entry only blanks are left, where a pattern may end and nothing is indented
  have hmid : Blank mid.rest := by
    rw [hp.1]
    rcases hend with rfl | ⟨rfl, -⟩
    · exact Blank.append (by simp [Blank, isBlank]) hlast
    · exact hlast
  have hcloses : Closes mid := fun x hx =>
    absurd ((skipBlank_current_of_blank hmid).symm.trans hx) (by simp)
  have hfirst : (Cursor.ofText text).current ≠ some '#' :=
    fun hc => hmark (Option.some.inj (hhead.symm.trans hc))
  have hdeeper : Deeper k (Cursor.ofText text).rest (Cursor.ofText (deepen k text)).rest := rfl
  obtain ⟨mid', hentry', hrest⟩ :=
    (nested_deepens k limit limit).entry hfirst hdeeper found mid hentry hcloses
  have hsame : mid'.rest = ending ++ last.rest :=
    hrest.trans ((deepen_of_blank k hmid).trans hp.1)
  have hread' : (entryWithin limit).run (.ofText (deepen k text)) = .ok (found, _) :=
    entryLine_eq_ok_iff.2 ⟨mid', ending, hentry', Cursor.passes_of_rest hsame, hend⟩
  have hclean' : '\r' ∉ deepen k text := fun hmem =>
    (mem_deepen k hmem).elim hclean (by decide)
  have hhead' := (head?_deepen k text).trans hhead
  rw [parse_eq_singleton hclean (not_blankLine_of_head hhead hblank) hread hlast,
    parse_eq_singleton hclean' (not_blankLine_of_head hhead' hblank) hread' hlast]

/-- A message over several lines: a blank line, a selection, a call with its arguments on lines of
their own, and an attribute. -/
def basket : List Char :=
  joinLines <| List.map String.toList
    ["basket = You have",
      "  \x7b $n ->",
      "    [0] nothing",
      "*[other] \x7b NUMBER(",
      "$n,",
      " type: \x22ordinal\x22) \x7d things",
      "       worth it",
      "  \x7d",
      "",
      "    in it.",
      " .hint = Mind",
      "  the eggs"]

/-- With three more spaces it is the same message. -/
theorem parse_deepen_basket :
    deepen 3 basket =
      joinLines (List.map String.toList
        ["basket = You have",
          "     \x7b $n ->",
          "       [0] nothing",
          "   *[other] \x7b NUMBER(",
          "   $n,",
          "    type: \x22ordinal\x22) \x7d things",
          "          worth it",
          "     \x7d",
          "",
          "       in it.",
          "    .hint = Mind",
          "     the eggs"]) ∧
      Resource.parse (.nestingOnly 5) (deepen 3 basket) =
        Resource.parse (.nestingOnly 5) basket := by
  have hclean : '\r' ∉ basket := by decide +kernel
  have hstart : basket.head?.any (fun ch => isIdentifierStart ch || ch == '-') = true := by
    decide +kernel
  have hone : (Resource.parse (.nestingOnly 5) basket).entries.length = 1 := by decide +kernel
  have hjunk : (Resource.parse (.nestingOnly 5) basket).junk = [] := by decide +kernel
  exact ⟨by decide +kernel, parse_deepen 5 3 hclean hstart hone hjunk⟩

end Fluent
