/-
# Where entries start and end

An entry ends where the line after the blank ones behind it does not continue it.  That line tells
so by the spaces it starts with and by the character behind them, so it may be moved and be followed
by other things.

* `valueEnds_iff` : what the next line tells of the end of a message or a term;
* `entry_ends` : where something was read as an entry, the entry ends;
* `head_of_entry`, `head_of_body` : an entry starts as it is printed.
-/
import Fluent.Proofs.Grammar.Entries
import Fluent.Proofs.Grammar.Spacing
import Fluent.Proofs.Resource.Segments

namespace Fluent.Grammar

/-! ## The line behind an entry -/

/-- The first line that is not blank decides whether a value ends before it. -/
theorem valueEnds_iff {c : Cursor} {gap spaces rest : List Char} {ch : Char}
    (hc : c.rest = '\n' :: (gap ++ (spaces ++ ch :: rest))) (hgap : BlankLines gap)
    (hs : Spaces spaces) (hch : isBlank ch = false) :
    ValueEnds c ↔ (spaces = [] ∨ endsPattern ch = true) ∧ ch ≠ '.' := by
  obtain ⟨hspace, hfeed⟩ : ch ≠ ' ' ∧ ch ≠ '\n' := by
    simpa [isBlank] using hch
  obtain ⟨line, hbreak, hline⟩ := (Cursor.passes_of_rest
    (show c.rest = ('\n' :: (gap ++ spaces)) ++ ch :: rest by simp [hc])).uncons
  obtain ⟨mid, hpgap, hpspaces⟩ := hline.split
  have hcurrent : c.current = some '\n' := hbreak.current_cons
  have hblank : Blank ('\n' :: (gap ++ spaces)) := by
    intro x hx
    rcases List.mem_cons.1 hx with rfl | hx
    · rfl
    · exact (hgap.1.append hs.blank) x hx
  have hskip : c.skipBlank.current = some ch := by
    have hp := hbreak.append (hpgap.append hpspaces)
    rw [skipBlank_eq_of_passes hp hblank rfl hspace hfeed]
    rfl
  have hinline : mid.skipBlankInline = ⟨ch :: rest, mid.pos + utf8Length spaces⟩ ∧
      mid.leading (· == ' ') = spaces := by
    have hstop : Stops (· == ' ') (ch :: rest) := stops_cons.2 (by simpa using hspace)
    have hrest : mid.rest = spaces ++ ch :: rest := hpspaces.1
    have hp := Cursor.passes_of_rest hrest
    exact ⟨Cursor.skipWhile_eq_iff.2 ⟨_, hp, hs, hstop⟩, Cursor.leading_eq hp hs hstop⟩
  -- blank lines do not continue a pattern, so the first other line decides
  obtain ⟨more, hmore⟩ := continuationFrom?_blankLines hgap hpgap 0
  have hends : PatternEnds c ↔ spaces = [] ∨ endsPattern ch = true := by
    have hnone : PatternEnds c ↔ continuation? c = none := by
      simp [PatternEnds, hcurrent]
    rw [hnone, continuation?, Cursor.bump_eq hbreak, hmore, continuationFrom?_eq, hinline.1,
      hinline.2]
    show (if ch = '\n' then _ else _) = _ ↔ _
    rw [if_neg hfeed]
    split
    · rename_i h
      simpa using h
    · rename_i h
      simpa using h
  constructor
  · intro h
    refine ⟨hends.1 h.pattern, fun hpoint => h.noAttribute ?_⟩
    rw [hskip, hpoint]
  · rintro ⟨h, hpoint⟩
    refine ⟨hends.2 h, ?_⟩
    rw [hskip]
    exact fun heq => hpoint (Option.some.inj heq)

/-- At the end of the text everything ends. -/
theorem valueEnds_of_blank {c : Cursor} {gap : List Char} (hc : c.rest = '\n' :: gap)
    (hgap : Blank gap) : ValueEnds c := by
  have hcurrent : c.current = some '\n' := by
    rw [Cursor.current, hc]
    rfl
  have hrest : c.bump.rest = gap := by
    have hp := (Cursor.passes_bump hcurrent).1
    rw [hc] at hp
    exact (List.cons.inj hp).2.symm
  have hblank : Blank c.rest := by
    rw [hc]
    intro ch hch
    rcases List.mem_cons.1 hch with rfl | hch
    · rfl
    · exact hgap ch hch
  refine ⟨.inr ⟨hcurrent, continuationFrom?_blank (hrest ▸ hgap) 0⟩, ?_⟩
  rw [skipBlank_current_of_blank hblank]
  exact (Option.some_ne_none _).symm

/-! ## Where entries were read -/

/-- The value behind an equals sign ends where a pattern ends. -/
theorem assigned_ends {deep : Nested} {c stop : Cursor} {found : Option Pattern}
    (h : assigned deep c = .ok (found, stop)) (hclean : '\r' ∉ c.rest) : PatternEnds stop := by
  obtain ⟨start, hs, h⟩ := bind_eq_ok.1 h
  have hle : c ≤ start.skipBlankInline := Cursor.le_trans (Cursor.le_skipBlankInline c)
    (Cursor.le_trans (Cursor.le_of_lt (expectChar_lt hs)) (Cursor.le_skipBlankInline start))
  exact (pattern_ok h (Cursor.not_mem_of_le hle hclean) (skipBlankInline_current_ne start)).1

/-- An attribute ends where a pattern ends. -/
theorem oneAttribute_ends {deep : Nested} {c stop : Cursor} {a : Attribute}
    (h : oneAttribute deep c = .ok (a, stop)) (hclean : '\r' ∉ c.rest) : PatternEnds stop := by
  obtain ⟨start, behind, hs, hi, hv⟩ := oneAttribute_cases h
  have hlt := Cursor.lt_trans (expectChar_lt hs) (identifier_lt hi)
  exact assigned_ends hv (Cursor.not_mem_of_le (Cursor.le_of_lt hlt) hclean)

/-- Where attributes were read, the last value ends and no attribute follows. -/
theorem attributesFrom_ends {deep : Nested} {before list : List Attribute} {c stop : Cursor}
    (h : attributesFrom deep before c = .ok (list, stop)) (hclean : '\r' ∉ c.rest)
    (hends : PatternEnds c) : ValueEnds stop := by
  fun_induction attributesFrom deep before c with
  | case1 => cases h
  | case2 before c _ a last ha ih =>
    have hle := Cursor.le_skipBlank c
    have hlt := Cursor.lt_of_le_of_lt hle (oneAttribute_lt ha)
    exact ih h (Cursor.not_mem_of_le (Cursor.le_of_lt hlt) hclean)
      (oneAttribute_ends ha (Cursor.not_mem_of_le hle hclean))
  | case3 before c hnone =>
    obtain ⟨-, rfl⟩ := Prod.mk.inj (Except.ok.inj h)
    refine ⟨hends, fun hpoint => ?_⟩
    -- at the end of the text no attribute follows, and at a line end none was found
    rcases hends with hc | ⟨hc, -⟩
    · have hrest : c.rest = [] := by simpa [Cursor.current] using hc
      rw [Cursor.current, Cursor.skipBlank, Cursor.skipWhile, hrest] at hpoint
      cases hpoint
    · exact hnone ⟨hc, hpoint⟩

/-- Where something was read as a message or a term, its value ends. -/
theorem entry_ends {deep : Nested} {c stop : Cursor} {found : Entry}
    (h : entry deep c = .ok (found, stop)) (hclean : '\r' ∉ c.rest) :
    (∃ comment, found = .comment comment) ∨ ValueEnds stop := by
  -- the last value ends where it was read, and the attributes go on from there
  have hrest : ∀ {behind start : Cursor} {value : Option Pattern} {list : List Attribute},
      c < behind → assigned deep behind = .ok (value, start) →
        attributesFrom deep [] start = .ok (list, stop) → ValueEnds stop := by
    intro behind start value list hlt hv hl
    have hlt' := Cursor.lt_trans hlt (assigned_lt hv)
    have hends := assigned_ends hv (Cursor.not_mem_of_le (Cursor.le_of_lt hlt) hclean)
    exact attributesFrom_ends hl (Cursor.not_mem_of_le (Cursor.le_of_lt hlt') hclean) hends
  rcases entry_cases h with ⟨text, rfl, -⟩ | ⟨t, rfl, -, ht⟩ | ⟨m, rfl, hm⟩
  · exact .inl ⟨text, rfl⟩
  · obtain ⟨first, behind, start, hs, hi, hv, hl, -⟩ := term_cases ht
    exact .inr (hrest (Cursor.lt_trans (expectChar_lt hs) (identifier_lt hi)) hv hl)
  · obtain ⟨behind, start, hi, hv, hl, -, -⟩ := message_cases hm
    exact .inr (hrest (identifier_lt hi) hv hl)

/-! ## How entries start -/

/-- Behind a name blanks and an equals sign stand. -/
theorem equals_of_assigned {deep : Nested} {c stop : Cursor} {found : Option Pattern}
    (h : assigned deep c = .ok (found, stop)) :
    ∃ spaces text, c.rest = spaces ++ '=' :: text ∧ Spaces spaces := by
  obtain ⟨start, hs, -⟩ := bind_eq_ok.1 h
  have hp := (Cursor.passes_skipWhile (· == ' ') c).append (expectChar_eq_ok_iff.1 hs)
  refine ⟨c.leading (· == ' '), start.rest, ?_, Cursor.all_leading _ c⟩
  rw [hp.1, List.append_assoc]
  rfl

/-- What was read as an entry starts one, with the character that its printed text starts with. -/
theorem head_of_entry {deep : Nested} {c stop : Cursor} {found : Entry}
    (h : entry deep c = .ok (found, stop)) :
    Head c.rest ∧ c.current = (entryBody found).head? := by
  rcases entry_cases h with ⟨text, rfl, hc, -⟩ | ⟨t, rfl, hc, ht⟩ | ⟨m, rfl, hm⟩
  · obtain ⟨more, hmore⟩ := text.body_cons
    rw [entryBody, hmore, (Cursor.passes_bump hc).1, hc]
    exact ⟨.mark _, rfl⟩
  · obtain ⟨first, behind, start, hs, hi, hv, -, -⟩ := term_cases ht
    obtain ⟨hname, hp, -⟩ := identifier_eq_ok_iff.1 hi
    obtain ⟨spaces, more, hrest, hspaces⟩ := equals_of_assigned hv
    have hminus := expectChar_eq_ok_iff.1 hs
    rw [hminus.1, hp.1, hrest, hc]
    exact ⟨.term hname hspaces more, rfl⟩
  · obtain ⟨behind, start, hi, hv, -, -, -⟩ := message_cases hm
    obtain ⟨hname, hp, -⟩ := identifier_eq_ok_iff.1 hi
    obtain ⟨spaces, more, hrest, hspaces⟩ := equals_of_assigned hv
    obtain ⟨ch, rest, hcons, -⟩ := hname.cons
    constructor
    · rw [hp.1, hrest]
      exact .message hname hspaces more
    · rw [hp.current_eq, entryBody, hcons]
      rfl

/-- What can be read is printed as something that starts an entry. -/
theorem head_of_body {deep : Nested} {e : Entry} (h : EntryReadable deep e) (after : List Char) :
    Head (entryBody e ++ after) := by
  have hspace : Spaces [' '] := by simp [Spaces]
  cases e with
  | message m =>
    have hhead := Head.message h.name hspace
      ((m.value.map printValue).getD [] ++ m.attributes.flatMap Attribute.print ++ after)
    simpa [entryBody] using hhead
  | term t =>
    have hhead := Head.term h.name hspace
      (printValue t.value ++ t.attributes.flatMap Attribute.print ++ after)
    simpa [entryBody] using hhead
  | comment found =>
    obtain ⟨text, htext⟩ := found.body_cons
    rw [entryBody, htext]
    exact .mark _
  | junk found => exact h.elim

end Fluent.Grammar
