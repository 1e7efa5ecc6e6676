/-
# Texts that differ in blank lines

Two texts that hold the same lines may differ in the blank lines between them, and in everything
behind a line that starts an entry.

* `Spaced` : the second text is the first one with blank lines added;
* `Near` : both texts are so related, or both start an entry;
* `Spaced.skipWhile`, `Near.skipBlank`, `Spaced.continuation?` : what is found in the first text is
  found in the second.
-/
import Fluent.Proofs.Grammar.Linewise
import Fluent.Proofs.Resource.Lines

namespace Fluent.Grammar

/-! ## The starts of entries -/

/-- The text starts an entry: with a mark, or with a name and an equals sign. -/
inductive Head : List Char → Prop
  | mark (text : List Char) : Head ('#' :: text)
  | message {name spaces : List Char} (hname : IsName name) (hs : Spaces spaces)
      (text : List Char) : Head (name ++ (spaces ++ '=' :: text))
  | term {name spaces : List Char} (hname : IsName name) (hs : Spaces spaces)
      (text : List Char) : Head ('-' :: (name ++ (spaces ++ '=' :: text)))

/-- Both texts start an entry, with the same character. -/
structure Heads (u v : List Char) : Prop where
  left : Head u
  right : Head v
  head?_eq : u.head? = v.head?

/-- A text where an entry starts has a first character, and that one starts entries. -/
theorem Head.cons {u : List Char} (h : Head u) :
    ∃ ch text, u = ch :: text ∧ startsEntry ch = true := by
  cases h with
  | mark text => exact ⟨'#', text, rfl, rfl⟩
  | message hname hs text =>
    obtain ⟨ch, rest, rfl, hch⟩ := hname.cons
    exact ⟨ch, _, rfl, by simp [startsEntry, hch]⟩
  | term hname hs text => exact ⟨'-', _, rfl, rfl⟩

/-- An entry starts with no other characters than these. -/
theorem Head.current_ne {c : Cursor} (h : Head c.rest) {ch : Char} (hch : startsEntry ch = false) :
    c.current ≠ some ch := by
  obtain ⟨x, text, hrest, hx⟩ := h.cons
  rw [Cursor.current, hrest]
  rintro heq
  obtain rfl := Option.some.inj heq
  rw [hch] at hx
  cases hx

/-- No blank stands where an entry starts. -/
theorem Head.stops_blank {u : List Char} (h : Head u) : Stops isBlank u := by
  obtain ⟨ch, text, rfl, hch⟩ := h.cons
  rw [stops_cons, isBlank, Bool.or_eq_false_iff]
  refine ⟨beq_eq_false_iff_ne.2 ?_, beq_eq_false_iff_ne.2 ?_⟩
  · rintro rfl
    exact absurd hch (by decide)
  · rintro rfl
    exact absurd hch (by decide)

/-! ## Added blank lines -/

/-- The second text is the first one with blank lines added behind line ends.  Where a line starts
an entry, both may go on as they like. -/
inductive Spaced : List Char → List Char → Prop
  | nil : Spaced [] []
  | cons {ch : Char} {u v : List Char} (hch : ch ≠ '\n') (h : Spaced u v) :
      Spaced (ch :: u) (ch :: v)
  | feed {gap u v : List Char} (hgap : BlankLines gap) (h : Spaced u v) :
      Spaced ('\n' :: u) ('\n' :: (gap ++ v))
  | last {gap : List Char} (hgap : Blank gap) : Spaced ['\n'] ('\n' :: gap)
  | heads {gap u v : List Char} (hgap : BlankLines gap) (h : Heads u v) :
      Spaced ('\n' :: u) ('\n' :: (gap ++ v))

/-- The texts are spaced, or both start an entry. -/
def Near (u v : List Char) : Prop :=
  Spaced u v ∨ Heads u v

/-- The same character may stand before spaced texts. -/
theorem Spaced.cons_same {u v : List Char} (h : Spaced u v) (ch : Char) :
    Spaced (ch :: u) (ch :: v) := by
  by_cases hch : ch = '\n'
  · subst hch
    have hfeed : Spaced ('\n' :: u) ('\n' :: ([] ++ v)) := .feed blankLines_nil h
    exact hfeed
  · exact .cons hch h

/-- A text is spaced from itself, with no blank lines added. -/
theorem Spaced.refl (u : List Char) : Spaced u u := by
  induction u with
  | nil => exact .nil
  | cons ch u ih => exact ih.cons_same ch

/-- The same text may stand before a line end. -/
theorem Spaced.append_feed {u v : List Char} (h : Spaced ('\n' :: u) ('\n' :: v))
    (text : List Char) : Spaced (text ++ '\n' :: u) (text ++ '\n' :: v) := by
  induction text with
  | nil => exact h
  | cons ch text ih => exact ih.cons_same ch

/-- Within a line nothing is added. -/
theorem Spaced.uncons {ch : Char} {u v : List Char} (h : Spaced (ch :: u) v) (hch : ch ≠ '\n') :
    ∃ w, v = ch :: w ∧ Spaced u w := by
  cases h with
  | cons _ h => exact ⟨_, rfl, h⟩
  | feed | last | heads => exact absurd rfl hch

/-- Behind a line end blank lines are added. -/
theorem Spaced.uncons_feed {u v : List Char} (h : Spaced ('\n' :: u) ('\n' :: v)) :
    (∃ gap w, v = gap ++ w ∧ BlankLines gap ∧ Near u w) ∨ u = [] ∧ Blank v := by
  cases h with
  | cons hch => exact absurd rfl hch
  | feed hgap h => exact .inl ⟨_, _, rfl, hgap, .inl h⟩
  | last hgap => exact .inr ⟨rfl, hgap⟩
  | heads hgap h => exact .inl ⟨_, _, rfl, hgap, .inr h⟩

/-- Spaced texts start with the same character. -/
theorem Spaced.head?_eq {u v : List Char} (h : Spaced u v) : u.head? = v.head? := by
  cases h <;> rfl

/-- Texts that are near start with the same character, also where both start an entry. -/
theorem Near.head?_eq {u v : List Char} (h : Near u v) : u.head? = v.head? :=
  h.elim Spaced.head?_eq Heads.head?_eq

/-- Cursors into texts that are near stand at the same character. -/
theorem Near.current_eq {c d : Cursor} (h : Near c.rest d.rest) : d.current = c.current :=
  h.head?_eq.symm

/-- Cursors into spaced texts stand at the same character. -/
theorem Spaced.current_eq {c d : Cursor} (h : Spaced c.rest d.rest) : d.current = c.current :=
  h.head?_eq.symm

/-- A text and its spaced form go on alike up to the end of a line. -/
theorem spaced_linewise : Linewise Spaced :=
  ⟨Spaced.head?_eq, Spaced.uncons⟩

/-! ## Within a line -/

/-- A run within one line is the same in both texts. -/
theorem Spaced.skipWhile {c d : Cursor} (h : Spaced c.rest d.rest) {test : Char → Bool}
    (hfeed : test '\n' = false) :
    d.leading test = c.leading test ∧
      Spaced (c.skipWhile test).rest (d.skipWhile test).rest :=
  spaced_linewise.skipWhile h hfeed

/-- Spaces are skipped in both texts. -/
theorem Spaced.skipBlankInline {c d : Cursor} (h : Spaced c.rest d.rest) :
    d.leading (· == ' ') = c.leading (· == ' ') ∧
      Spaced c.skipBlankInline.rest d.skipBlankInline.rest :=
  h.skipWhile (by decide)

/-- Blanks are skipped in both texts. -/
theorem Near.skipBlank {c d : Cursor} (h : Near c.rest d.rest) :
    Near c.skipBlank.rest d.skipBlank.rest := by
  have hheads : ∀ {u v : List Char}, Heads u v →
      Near (u.dropWhile isBlank) (v.dropWhile isBlank) := by
    intro u v h
    rw [dropWhile_of_stops h.left.stops_blank, dropWhile_of_stops h.right.stops_blank]
    exact .inr h
  -- what was added is skipped together with the line feed in front of it
  have hgaps : ∀ {gap v : List Char}, Blank gap →
      ('\n' :: (gap ++ v)).dropWhile isBlank = v.dropWhile isBlank := by
    intro gap v hgap
    rw [List.dropWhile_cons_of_pos (by decide), List.dropWhile_append_of_pos hgap]
  have hspaced : ∀ {u v : List Char}, Spaced u v →
      Near (u.dropWhile isBlank) (v.dropWhile isBlank) := by
    intro u v h
    induction h with
    | nil => exact .inl .nil
    | @cons ch u v hch h ih =>
      by_cases hblank : isBlank ch = true
      · rwa [List.dropWhile_cons_of_pos hblank, List.dropWhile_cons_of_pos hblank]
      · rw [List.dropWhile_cons_of_neg hblank, List.dropWhile_cons_of_neg hblank]
        exact .inl (.cons hch h)
    | feed hgap _ ih => rwa [hgaps hgap.1, List.dropWhile_cons_of_pos (by decide)]
    | @last gap hgap =>
      have hnil : ('\n' :: (gap ++ [])).dropWhile isBlank = [] := hgaps hgap
      rw [List.append_nil] at hnil
      rw [hnil]
      exact .inl .nil
    | heads hgap h =>
      rw [hgaps hgap.1, List.dropWhile_cons_of_pos (by decide)]
      exact hheads h
  exact h.elim hspaced hheads

/-! ## From line to line -/

/-- Blank lines do not change which line continues a pattern. -/
theorem continuationFrom?_blankLines {gap : List Char} (hgap : BlankLines gap) {line mid : Cursor}
    (hp : line.Passes gap mid) (blankLines : Nat) :
    ∃ more, continuationFrom? blankLines line = continuationFrom? more mid := by
  induction hn : gap.length using Nat.strongRecOn generalizing gap line blankLines with
  | _ n ih =>
    -- the induction is on the length of the gap, a line of which is passed in each round
    rcases hgap.cases with rfl | ⟨spaces, more, rfl, hs, hmore⟩
    · obtain rfl := hp.eq_of_nil
      exact ⟨blankLines, rfl⟩
    · obtain ⟨feed, hspaces, hrest⟩ := hp.split
      obtain ⟨next, hfeed, hnext⟩ := hrest.uncons
      have hskip : line.skipBlankInline = feed :=
        Cursor.skipWhile_eq_iff.2 ⟨spaces, hspaces, hs, by simp [hfeed.1, stops_cons]⟩
      have hlength : more.length < n := by
        rw [← hn]
        simp
        omega
      obtain ⟨count, hcount⟩ := ih more.length hlength hmore hnext (blankLines + 1) rfl
      refine ⟨count, ?_⟩
      rw [continuationFrom?_eq, hskip, hfeed.current_cons, Cursor.bump_eq hfeed]
      exact hcount

/-- A line that starts an entry continues no pattern. -/
theorem continuationFrom?_head {line : Cursor} (h : Head line.rest) (blankLines : Nat) :
    continuationFrom? blankLines line = none := by
  have hstops : Stops (· == ' ') line.rest := by
    intro ch hch
    have := h.stops_blank ch hch
    rw [isBlank, Bool.or_eq_false_iff] at this
    exact this.1
  have hskip : line.skipBlankInline = line := Cursor.skipWhile_of_stops hstops
  have hlead : line.leading (· == ' ') = [] := takeWhile_of_stops hstops
  obtain ⟨ch, text, hrest, -⟩ := h.cons
  have hc : line.current = some ch := by rw [Cursor.current, hrest]; rfl
  -- an entry is not indented, so it continues no pattern
  have hfeed : ch ≠ '\n' := by
    rintro rfl
    exact h.current_ne (by decide) hc
  rw [continuationFrom?_eq, hskip, hc, hlead]
  dsimp only
  rw [if_neg hfeed]
  rfl

/-- In a blank text nothing follows the blanks. -/
theorem skipBlank_current_of_blank {c : Cursor} (h : Blank c.rest) :
    c.skipBlank.current = none := by
  have hnil : (c.rest ++ []).dropWhile isBlank = [] := List.dropWhile_append_of_pos h
  rw [List.append_nil] at hnil
  rw [Cursor.current, Cursor.skipBlank, Cursor.skipWhile]
  show (c.rest.dropWhile isBlank).head? = none
  rw [hnil]
  rfl

/-- In a blank text nothing continues a pattern. -/
theorem continuationFrom?_blank {line : Cursor} (h : Blank line.rest) (blankLines : Nat) :
    continuationFrom? blankLines line = none := by
  refine continuationFrom?_eq_none fun ch hch => ?_
  have hnone := skipBlank_current_of_blank h
  exact absurd (hnone.symm.trans hch) (by simp)

/-- A line continues a pattern in the second text if one does in the first, with the same
indentation. -/
theorem Spaced.continuationFrom? {line line' : Cursor}
    (h : Spaced ('\n' :: line.rest) ('\n' :: line'.rest)) (blankLines blankLines' : Nat) :
    (Grammar.continuationFrom? blankLines line = none ∧
        Grammar.continuationFrom? blankLines' line' = none) ∨
      ∃ next next', Grammar.continuationFrom? blankLines line = some next ∧
        Grammar.continuationFrom? blankLines' line' = some next' ∧ next'.indent = next.indent ∧
        Spaced next.resume.rest next'.resume.rest := by
  induction hn : line.rest.length using Nat.strongRecOn
    generalizing line line' blankLines blankLines' with
  | _ n ih =>
    rcases h.uncons_feed with ⟨gap, w, hrest, hgap, hnear⟩ | ⟨hnil, hblank⟩
    · -- the blank lines that were added are passed first
      have hp := Cursor.passes_of_rest hrest
      obtain ⟨more, hmore⟩ := continuationFrom?_blankLines hgap hp blankLines'
      rw [hmore]
      generalize hmid : (⟨w, line'.pos + utf8Length gap⟩ : Cursor) = mid
      have hw : mid.rest = w := by rw [← hmid]
      rw [← hw] at hnear
      rcases hnear with hspaced | hheads
      · -- a line with the same indent follows in both texts
        obtain ⟨hlead, hskip⟩ := hspaced.skipBlankInline
        rw [continuationFrom?_eq, continuationFrom?_eq more, hskip.current_eq, hlead]
        cases hc : line.skipBlankInline.current with
        | none => exact .inl ⟨rfl, rfl⟩
        | some ch =>
          dsimp only
          by_cases hfeed : ch = '\n'
          · subst hfeed
            have hbump := Cursor.passes_bump hc
            have hbump' := Cursor.passes_bump (hskip.current_eq.trans hc)
            rw [hbump.1, hbump'.1] at hskip
            rw [if_pos rfl, if_pos rfl]
            refine ih _ ?_ hskip _ _ rfl
            rw [← hn]
            exact Cursor.length_lt_of_lt
              (Cursor.lt_of_le_of_lt (Cursor.le_skipBlankInline line) (Cursor.lt_bump hc))
          · rw [if_neg hfeed, if_neg hfeed]
            split
            · exact .inl ⟨rfl, rfl⟩
            · exact .inr ⟨_, _, rfl, rfl, rfl, hskip⟩
      · -- entries start in both texts, and continue no pattern
        exact .inl ⟨continuationFrom?_head hheads.left _, continuationFrom?_head hheads.right _⟩
    · refine .inl ⟨continuationFrom?_blank ?_ _, continuationFrom?_blank hblank _⟩
      rw [hnil]
      exact blank_nil

/-- A pattern is continued in both texts or in neither, and with the same indent. -/
theorem Spaced.continuation? {c d : Cursor} (h : Spaced c.rest d.rest)
    (hc : c.current = some '\n') :
    (Grammar.continuation? c = none ∧ Grammar.continuation? d = none) ∨
      ∃ next next', Grammar.continuation? c = some next ∧ Grammar.continuation? d = some next' ∧
        next'.indent = next.indent ∧ Spaced next.resume.rest next'.resume.rest := by
  have hbump := Cursor.passes_bump hc
  have hbump' := Cursor.passes_bump (h.current_eq.trans hc)
  rw [hbump.1, hbump'.1] at h
  exact h.continuationFrom? 0 0

end Fluent.Grammar
