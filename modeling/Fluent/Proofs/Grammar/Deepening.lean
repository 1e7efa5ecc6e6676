/-
# Deeper indentation

The lines of an entry behind its first one may be indented further, all of them by the same number
of spaces.  Blank lines are left alone, as they may hold any number of spaces.

* `deepen` : every line but the first is indented further, unless it is blank;
* `deeper_linewise`, `Deeper.skipBlank` : within a line nothing changes, and where blanks are
  skipped nothing is seen of it;
* `Deeper.continuationFrom?` : a line that continues a pattern still does so.
-/
import Fluent.Proofs.Grammar.Linewise
import Fluent.Proofs.Resource.Lines

namespace Fluent

/-! ## Indenting further -/

instance (text : List Char) : Decidable (BlankLine text) :=
  decidable_of_iff (isBlankLine (.ofText text) = true) isBlankLine_iff

/-- Inserts `k` spaces at the start of every line but the first, unless the line is blank. -/
def deepen (k : Nat) : List Char → List Char
  | [] => []
  | ch :: text =>
    if ch = '\n' ∧ ¬BlankLine text then ch :: (List.replicate k ' ' ++ deepen k text)
    else ch :: deepen k text

section Lines

variable (k : Nat) {text : List Char}

/-- A character that ends no line is left alone. -/
theorem deepen_cons {ch : Char} (h : ch ≠ '\n') (text : List Char) :
    deepen k (ch :: text) = ch :: deepen k text :=
  if_neg fun hfeed => h hfeed.1

/-- A blank line stays as it is. -/
theorem deepen_feed_of_blankLine (h : BlankLine text) :
    deepen k ('\n' :: text) = '\n' :: deepen k text :=
  if_neg fun hline => hline.2 h

/-- A line that holds something starts with more spaces. -/
theorem deepen_feed (h : ¬BlankLine text) :
    deepen k ('\n' :: text) = '\n' :: (List.replicate k ' ' ++ deepen k text) :=
  if_pos ⟨rfl, h⟩

/-- The first character of a text stays the first one. -/
theorem head?_deepen (text : List Char) : (deepen k text).head? = text.head? := by
  cases text with
  | nil => rfl
  | cons ch text =>
    rw [deepen]
    split <;> rfl

/-- Only spaces are added. -/
theorem mem_deepen {ch : Char} (h : ch ∈ deepen k text) : ch ∈ text ∨ ch = ' ' := by
  induction text with
  | nil => exact .inl h
  | cons first text ih =>
    have hrest : ∀ {more : List Char}, Spaces more → ch ∈ first :: (more ++ deepen k text) →
        ch ∈ first :: text ∨ ch = ' ' := by
      intro more hmore hmem
      rcases List.mem_cons.1 hmem with rfl | hmem
      · exact .inl List.mem_cons_self
      rcases List.mem_append.1 hmem with hmem | hmem
      · exact .inr (by simpa using hmore ch hmem)
      · exact (ih hmem).imp_left (List.mem_cons_of_mem _)
    rw [deepen] at h
    split at h
    · exact hrest (spaces_replicate k) h
    · exact hrest spaces_nil h

/-- Where nothing stands, nothing is indented. -/
theorem deepen_of_blank (h : Blank text) : deepen k text = text := by
  induction text with
  | nil => rfl
  | cons ch text ih =>
    have htext : Blank text := fun x hx => h x (List.mem_cons_of_mem _ hx)
    rw [deepen, if_neg fun hline => hline.2 htext.blankLine, ih htext]

/-- What is not blank stays behind the blanks. -/
theorem dropWhile_deepen (text : List Char) :
    (deepen k text).dropWhile isBlank = deepen k (text.dropWhile isBlank) := by
  induction text with
  | nil => rfl
  | cons ch text ih =>
    by_cases hblank : isBlank ch = true
    · rw [List.dropWhile_cons_of_pos hblank, ← ih, deepen]
      split
      · rw [List.dropWhile_cons_of_pos hblank,
          List.dropWhile_append_of_pos (spaces_replicate k).blank]
      · rw [List.dropWhile_cons_of_pos hblank]
    · have hfeed : ch ≠ '\n' := by
        rintro rfl
        exact hblank rfl
      rw [List.dropWhile_cons_of_neg hblank, deepen_cons k hfeed,
        List.dropWhile_cons_of_neg hblank]

end Lines

namespace Grammar

/-! ## Both texts -/

/-- The second text is the first one, indented further. -/
def Deeper (k : Nat) (u v : List Char) : Prop :=
  v = deepen k u

/-- The next thing that is not blank, if there is one, ends a pattern. -/
def Closes (c : Cursor) : Prop :=
  ∀ ch, c.skipBlank.current = some ch → endsPattern ch = true

/-- Where a pattern is to end, no line continues it. -/
theorem Closes.continuation? {c : Cursor} (h : Closes c) (hc : c.current = some '\n') :
    Grammar.continuation? c = none := by
  rcases patternEnds_of_skipBlank hc h with hnone | ⟨-, hnone⟩
  · cases hc.symm.trans hnone
  · exact hnone

/-- A text and its deeper form go on alike up to the end of a line. -/
theorem deeper_linewise (k : Nat) : Linewise (Deeper k) where
  head?_eq h := h ▸ (head?_deepen k _).symm
  uncons h hch := ⟨_, h.trans (deepen_cons k hch _), rfl⟩

namespace Deeper

variable {k : Nat} {c d : Cursor}

theorem current_eq (h : Deeper k c.rest d.rest) : d.current = c.current :=
  (deeper_linewise k).current_eq h

/-- Within a line the same number of spaces is skipped in both texts. -/
theorem skipBlankInline (h : Deeper k c.rest d.rest) :
    d.leading (· == ' ') = c.leading (· == ' ') ∧
      Deeper k c.skipBlankInline.rest d.skipBlankInline.rest :=
  (deeper_linewise k).skipWhile h (by decide)

/-- Behind blanks of all kinds the texts are related again: the added spaces are skipped. -/
theorem skipBlank (h : Deeper k c.rest d.rest) : Deeper k c.skipBlank.rest d.skipBlank.rest :=
  (congrArg (List.dropWhile isBlank) h).trans (dropWhile_deepen k c.rest)

/-- Where a pattern of the text is closed, so is that of the deeper text. -/
theorem closes (h : Deeper k c.rest d.rest) (hc : Closes c) : Closes d :=
  fun ch hch => hc ch (h.skipBlank.current_eq.symm.trans hch)

/-- A line that continues a pattern does so in both texts, and is indented further in the second
one. -/
theorem continuationFrom? {blankLines : Nat} {line line' : Cursor} {next : Continuation}
    (hline : Deeper k ('\n' :: line.rest) ('\n' :: line'.rest))
    (h : Grammar.continuationFrom? blankLines line = some next) :
    ∃ resume, Grammar.continuationFrom? blankLines line' =
        some ⟨next.blankLines, next.indent + k, resume⟩ ∧
      Deeper k next.resume.rest resume.rest := by
  fun_induction Grammar.continuationFrom? blankLines line generalizing line' with
  | case1 | case3 => cases h
  | case2 blankLines line hc ih =>
    -- a blank line is the same in both texts
    have hblank : BlankLine line.rest := by
      rw [← isBlankLine_iff, isBlankLine, hc]
      rfl
    have hrest : Deeper k line.rest line'.rest :=
      List.cons.inj (hline.trans (deepen_feed_of_blankLine k hblank)) |>.2
    have hskip := hrest.skipBlankInline.2
    have hc' := hskip.current_eq.trans hc
    rw [continuationFrom?_eq, hc']
    dsimp only
    rw [if_pos rfl]
    rw [(Cursor.passes_bump hc).1, (Cursor.passes_bump hc').1] at hskip
    exact ih hskip h
  | case4 blankLines line ch hfeed hc indent =>
    rename_i hind
    obtain rfl := Option.some.inj h
    have hline' : ¬BlankLine line.rest := by
      rw [← isBlankLine_iff, isBlankLine, hc]
      simpa using hfeed
    have hrest : line'.rest = List.replicate k ' ' ++ deepen k line.rest :=
      List.cons.inj (hline.trans (deepen_feed k hline')) |>.2
    -- the spaces that were inserted stand in front of those that were there
    have hp := Cursor.passes_of_rest hrest
    generalize hmid : (⟨deepen k line.rest, line'.pos + utf8Length (List.replicate k ' ')⟩ : Cursor)
      = mid at hp
    have hdeep : Deeper k line.rest mid.rest := by
      rw [← hmid]
      exact rfl
    obtain ⟨hlead, hskip⟩ := hdeep.skipBlankInline
    have hpasses := hp.append (Cursor.passes_skipWhile (· == ' ') mid)
    have hall : ∀ x ∈ List.replicate k ' ' ++ mid.leading (· == ' '), (x == ' ') = true :=
      (spaces_replicate k).append (Cursor.all_leading _ mid)
    have hstops := stops_dropWhile (· == ' ') mid.rest
    have hlead' := Cursor.leading_eq hpasses hall hstops
    have hskip' : line'.skipBlankInline = mid.skipBlankInline :=
      Cursor.skipWhile_eq_iff.2 ⟨_, hpasses, hall, hstops⟩
    have hlength : (line'.leading (· == ' ')).length = indent + k := by
      rw [hlead', List.length_append, List.length_replicate, hlead, Nat.add_comm]
    refine ⟨mid.skipBlankInline, ?_, hskip⟩
    rw [continuationFrom?_eq, hskip', hskip.current_eq, hc, hlength]
    dsimp only
    have hnot : ¬(decide (indent + k = 0) || endsPattern ch) = true := by
      simp only [Bool.or_eq_true, decide_eq_true_eq, not_or] at hind ⊢
      exact ⟨by omega, hind.2⟩
    rw [if_neg hfeed, if_neg hnot]

/-- A line that continues a pattern continues it in the deeper text, with an indent that is larger
by the added spaces. -/
theorem continuation? (h : Deeper k c.rest d.rest) (hc : c.current = some '\n')
    {next : Continuation} (hnext : Grammar.continuation? c = some next) :
    ∃ resume, Grammar.continuation? d = some ⟨next.blankLines, next.indent + k, resume⟩ ∧
      Deeper k next.resume.rest resume.rest := by
  have hbump := Cursor.passes_bump hc
  have hbump' := Cursor.passes_bump (h.current_eq.trans hc)
  rw [hbump.1, hbump'.1] at h
  exact h.continuationFrom? hnext

end Deeper

end Grammar

end Fluent
