/-
# Lines between items

How far blank lines are skipped, and where junk ends, told of the text itself.

* `passes_skipBlankLines` : skipping passes all blank lines and nothing else;
* `passes_nextItemStart`, `nextItemStart_eq` : junk ends at the first line that is blank or could
  start an entry.
-/
import Fluent.Proofs.Text.Passage
import Fluent.Resource.Items

namespace Fluent

/-! ## Lines of a text -/

/-- What follows the text is the start of a line. -/
def LineStart (before : List Char) : Prop :=
  before = [] ∨ before.getLast? = some '\n'

/-- The text starts with a blank line. -/
def BlankLine (text : List Char) : Prop :=
  Stops (· != '\n') (text.dropWhile (· == ' '))

/-- The text starts with a line that is blank or could start an entry. -/
def Recovers (text : List Char) : Prop :=
  BlankLine text ∨ ∃ ch, text.head? = some ch ∧ startsEntry ch = true

/-- A line starts behind a line feed. -/
theorem lineStart_snoc (before : List Char) : LineStart (before ++ ['\n']) :=
  .inr (by simp)

/-- A line starts behind two texts that each leave the start of one. -/
theorem LineStart.append {s t : List Char} (hs : LineStart s) (ht : LineStart t) :
    LineStart (s ++ t) := by
  rcases ht with rfl | ht
  · rwa [List.append_nil]
  · exact .inr (by simp [ht])

/-- Nothing at all is a blank line. -/
theorem blankLine_nil : BlankLine [] :=
  stops_nil _

/-- Spaces in front do not change whether a line is blank. -/
theorem blankLine_append {spaces : List Char} (h : Spaces spaces) (text : List Char) :
    BlankLine (spaces ++ text) ↔ BlankLine text := by
  rw [BlankLine, BlankLine, List.dropWhile_append_of_pos h]

/-- A text that does not start with a space is a blank line exactly if it starts with a line
feed. -/
theorem blankLine_cons {ch : Char} (h : ch ≠ ' ') (text : List Char) :
    BlankLine (ch :: text) ↔ ch = '\n' := by
  rw [BlankLine, List.dropWhile_cons_of_neg (by simpa using h), stops_cons]
  simp

/-- Where a line is blank, its first characters are. -/
theorem blankLine_of_append {s t : List Char} (h : BlankLine (s ++ t)) : BlankLine s := by
  rw [BlankLine, List.dropWhile_append] at h
  split at h
  · rename_i hnil
    rw [BlankLine, List.isEmpty_iff.1 hnil]
    exact stops_nil _
  · intro ch hch
    exact h ch (by rw [List.head?_append, hch]; rfl)

/-- The cursor's test for a blank line is one on the text that is left. -/
theorem isBlankLine_iff {c : Cursor} : isBlankLine c = true ↔ BlankLine c.rest := by
  unfold isBlankLine BlankLine Cursor.skipBlankInline Cursor.skipWhile Cursor.current
  dsimp only
  cases c.rest.dropWhile (· == ' ') with
  | nil => simp [stops_nil]
  | cons ch t => simp [stops_cons]

/-- The test for the end of junk tells whether parsing may go on here. -/
theorem recovers_iff {c : Cursor} :
    (isBlankLine c || c.current.any startsEntry) = true ↔ Recovers c.rest := by
  rw [Bool.or_eq_true, isBlankLine_iff, Recovers, Cursor.current]
  cases c.rest.head? with
  | none => simp
  | some ch => simp

/-! ## Blank lines -/

/-- The text is made of blank lines. -/
def BlankLines (gap : List Char) : Prop :=
  Blank gap ∧ LineStart gap

/-- The empty text is made of blank lines, of none of them. -/
theorem blankLines_nil : BlankLines [] :=
  ⟨blank_nil, .inl rfl⟩

/-- Blank lines are spaces and a line feed, and further blank lines. -/
theorem BlankLines.cases {gap : List Char} (h : BlankLines gap) :
    gap = [] ∨ ∃ spaces more, gap = spaces ++ '\n' :: more ∧ Spaces spaces ∧ BlankLines more := by
  obtain ⟨hb, hl⟩ := h
  rcases hl with rfl | hl
  · exact .inl rfl
  have hsplit : gap.takeWhile (· == ' ') ++ gap.dropWhile (· == ' ') = gap :=
    List.takeWhile_append_dropWhile
  have hspaces : Spaces (gap.takeWhile (· == ' ')) := List.all_eq_true.1 List.all_takeWhile
  cases hr : gap.dropWhile (· == ' ') with
  | nil =>
    rw [hr, List.append_nil] at hsplit
    -- a gap ends with a line feed, so it does not consist of spaces
    have hmem : '\n' ∈ gap.takeWhile (· == ' ') := by
      rw [hsplit]
      exact List.mem_of_getLast? hl
    exact absurd (hspaces _ hmem) (by decide)
  | cons ch more =>
    rw [hr] at hsplit
    have hstop := stops_dropWhile (· == ' ') gap
    rw [hr, stops_cons] at hstop
    have hch : isBlank ch = true := hb ch (hsplit ▸ by simp)
    have hfeed : ch = '\n' := by
      rcases (by simpa [isBlank] using hch : ch = ' ' ∨ ch = '\n') with rfl | h
      · simp at hstop
      · exact h
    refine .inr ⟨_, more, by rw [← hfeed, hsplit], hspaces, ?_, ?_⟩
    · exact fun x hx => hb x (hsplit ▸ by simp [hx])
    · cases hm : more with
      | nil => exact .inl rfl
      | cons x t =>
        rw [← hsplit, hm, List.getLast?_append] at hl
        simpa [LineStart, List.getLast?_cons_cons] using hl

/-- Skipping blank lines passes all of them. -/
theorem skipBlankLines_of_blankLines {c : Cursor} {gap : List Char} {stop : Cursor}
    (hp : c.Passes gap stop) (hg : BlankLines gap) : c.skipBlankLines = stop.skipBlankLines := by
  induction hn : gap.length using Nat.strongRecOn generalizing c gap with
  | _ n ih =>
    rcases hg.cases with rfl | ⟨spaces, more, rfl, hs, hmore⟩
    · rw [hp.eq_of_nil]
    · obtain ⟨mid, hmid, hrest⟩ := hp.split
      obtain ⟨next, hfeed, hnext⟩ := hrest.uncons
      have hskip : c.skipBlankInline = mid :=
        Cursor.skipWhile_eq_iff.2 ⟨spaces, hmid, hs, by rw [hfeed.1]; simp [stops_cons]⟩
      rw [Cursor.skipBlankLines, hskip, hfeed.current_cons]
      dsimp only
      rw [if_pos rfl, Cursor.bump_eq hfeed]
      exact ih more.length (by rw [← hn]; simp; omega) hnext hmore rfl

/-- Skipping blank lines passes whole blank lines, up to a line that is not blank or to the end of
the text. -/
theorem passes_skipBlankLines (c : Cursor) :
    ∃ gap, c.Passes gap c.skipBlankLines ∧ Blank gap ∧
      (c.skipBlankLines.rest = [] ∨ LineStart gap ∧ ¬ BlankLine c.skipBlankLines.rest) := by
  -- the cases are: nothing is left, the line is blank, or it is not
  fun_induction Cursor.skipBlankLines c with
  | case1 c h =>
    refine ⟨_, Cursor.passes_skipWhile _ c, ?_, .inl ?_⟩
    · exact Spaces.blank (Cursor.all_leading _ c)
    · simpa [Cursor.current] using h
  | case2 c h ih =>
    obtain ⟨gap, hp, hb, hrest⟩ := ih
    have hs : Spaces (c.leading (· == ' ')) := Cursor.all_leading _ c
    have hfeed : c.Passes (c.leading (· == ' ') ++ ['\n']) c.skipBlankInline.bump :=
      (Cursor.passes_skipWhile _ c).append (Cursor.passes_bump h)
    refine ⟨_, hfeed.append hp, ?_, ?_⟩
    · exact (hs.blank.append (by simp [Blank, isBlank])).append hb
    · exact hrest.imp_right fun h => ⟨(lineStart_snoc _).append h.1, h.2⟩
  | case3 c ch h hne =>
    refine ⟨[], .refl c, blank_nil, .inr ⟨.inl rfl, fun hblank => ?_⟩⟩
    have hstop : (ch != '\n') = false := hblank ch h
    exact hne (by simpa using hstop)

/-- At a line that is not blank nothing is skipped. -/
theorem skipBlankLines_eq_self {c : Cursor} (h : ¬ BlankLine c.rest) : c.skipBlankLines = c := by
  rw [Cursor.skipBlankLines]
  split
  · rename_i hc
    exact absurd (isBlankLine_iff.1 (by rw [isBlankLine, hc])) h
  · rename_i ch hc
    rw [if_neg]
    rintro rfl
    exact h (isBlankLine_iff.1 (by rw [isBlankLine, hc]; rfl))

/-- A blank text is a blank line, or starts with one. -/
theorem Blank.blankLine {text : List Char} (h : Blank text) : BlankLine text := by
  intro ch hch
  have hmem : ch ∈ text := (List.dropWhile_sublist _).subset (List.mem_of_head? hch)
  have hspace : (ch == ' ') = false := stops_dropWhile (· == ' ') text ch hch
  have hblank := h ch hmem
  rw [isBlank, hspace, Bool.false_or] at hblank
  simpa using hblank

/-- A blank text is skipped up to its end. -/
theorem skipBlankLines_of_blank {c : Cursor} (h : Blank c.rest) : c.skipBlankLines.rest = [] := by
  obtain ⟨gap, hp, -, hrest⟩ := passes_skipBlankLines c
  have hb : Blank c.skipBlankLines.rest := fun ch hch => h ch (hp.1 ▸ by simp [hch])
  exact hrest.resolve_right fun hline => hline.2 hb.blankLine

/-! ## The end of junk -/

/-- In a text that goes on with `after`, junk takes `seg`: whole lines up to the first one that is
blank or could start an entry. -/
structure JunkLines (seg after : List Char) : Prop where
  ne_nil : seg ≠ []
  ends : after = [] ∨ seg.getLast? = some '\n' ∧ Recovers after
  first : ∀ s t, seg = s ++ '\n' :: t → t ≠ [] → ¬ Recovers (t ++ after)

/-- A text is cut at a line feed within its first line and that line feed, or behind them. -/
theorem line_append_eq {line more s t : List Char} (hline : ∀ ch ∈ line, (ch != '\n') = true)
    (h : line ++ '\n' :: more = s ++ '\n' :: t) :
    t = more ∨ ∃ s', more = s' ++ '\n' :: t := by
  rcases List.append_eq_append_iff.1 h with ⟨u, hs, hu⟩ | ⟨u, hl, hu⟩
  · cases u with
    | nil => exact .inl (List.cons.inj hu).2.symm
    | cons ch u => exact .inr ⟨u, (List.cons.inj hu).2⟩
  · cases u with
    | nil => exact .inl (List.cons.inj hu).2
    | cons ch u =>
      have hch := hline ch (hl ▸ by simp)
      rw [← (List.cons.inj hu).1] at hch
      exact absurd hch (by decide)

/-- Junk ends after its first line, or goes on with more junk. -/
theorem passes_nextItemStart {c : Cursor} (hc : c.rest ≠ []) :
    ∃ seg, c.Passes seg (nextItemStart c) ∧ JunkLines seg (nextItemStart c).rest := by
  -- the cases are: no line is left, the next one recovers, or it belongs to the junk as well
  fun_induction nextItemStart c with
  | case1 c h =>
    have hp := Cursor.passes_skipWhile (· != '\n') c
    have hend : (c.skipWhile (· != '\n')).rest = [] := by simpa [Cursor.current] using h
    refine ⟨_, hp, fun hnil => ?_, .inl hend, fun s t hs _ => ?_⟩
    · exact hc (by rw [hp.1, hnil, hend]; rfl)
    · have := Cursor.all_leading (· != '\n') c '\n' (hs ▸ by simp)
      simp at this
  | case2 c ch h line hrec =>
    have hfeed : ch = '\n' := by
      simpa using stops_dropWhile (· != '\n') c.rest ch h
    have hp := (Cursor.passes_skipWhile (· != '\n') c).append (Cursor.passes_bump h)
    refine ⟨_, hp, by simp, .inr ⟨by simp [hfeed], recovers_iff.1 hrec⟩, fun s t hs ht => ?_⟩
    rw [hfeed] at hs
    rcases line_append_eq (Cursor.all_leading _ c) hs with rfl | ⟨s', hs'⟩
    · exact absurd rfl ht
    · simp at hs'
  | case3 c ch h line hrec ih =>
    have hfeed : ch = '\n' := by
      simpa using stops_dropWhile (· != '\n') c.rest ch h
    have hrec' : ¬ Recovers line.rest := fun h => hrec (recovers_iff.2 h)
    have hne : line.rest ≠ [] := fun h => hrec' (.inl (h ▸ blankLine_nil))
    obtain ⟨seg, hpseg, hseg⟩ := ih hne
    have hp := (Cursor.passes_skipWhile (· != '\n') c).append (Cursor.passes_bump h)
    refine ⟨_, hp.append hpseg, by simp, ?_, fun s t hs ht => ?_⟩
    · rcases hseg.ends with h | ⟨h, hr⟩
      · exact .inl h
      · exact .inr ⟨by rw [List.getLast?_append, h]; rfl, hr⟩
    · rw [hfeed, List.append_assoc] at hs
      rcases line_append_eq (Cursor.all_leading _ c) hs with rfl | ⟨s', hs'⟩
      · rwa [← hpseg.1]
      · exact hseg.first s' t hs' ht

/-- Junk does not go on where other junk ends. -/
theorem JunkLines.eq_nil {seg after more after' : List Char} (h : JunkLines seg after)
    (h' : JunkLines (seg ++ more) after') (heq : after = more ++ after') : more = [] := by
  rcases h.ends with hnil | ⟨hlast, hrec⟩
  · rw [hnil] at heq
    exact (List.append_eq_nil_iff.1 heq.symm).1
  · obtain ⟨s, rfl⟩ := List.getLast?_eq_some_iff.1 hlast
    rw [heq] at hrec
    exact Classical.byContradiction fun hne => h'.first s more (by simp) hne hrec

/-- A text starts with one piece of junk at most. -/
theorem JunkLines.unique {seg after seg' after' : List Char} (h : JunkLines seg after)
    (h' : JunkLines seg' after') (heq : seg ++ after = seg' ++ after') : seg = seg' := by
  rcases List.append_eq_append_iff.1 heq with ⟨more, rfl, hafter⟩ | ⟨more, rfl, hafter⟩
  · rw [h.eq_nil h' hafter, List.append_nil]
  · rw [h'.eq_nil h hafter, List.append_nil]

/-- Junk ends behind its lines, where parsing may go on. -/
theorem nextItemStart_eq {c stop : Cursor} {seg : List Char} (hp : c.Passes seg stop)
    (hseg : JunkLines seg stop.rest) : nextItemStart c = stop := by
  have hne : c.rest ≠ [] := by
    rw [hp.1]
    simp [hseg.ne_nil]
  obtain ⟨seg', hp', hseg'⟩ := passes_nextItemStart hne
  rw [hseg'.unique hseg (hp'.1.symm.trans hp.1)] at hp'
  exact hp'.unique hp

end Fluent
