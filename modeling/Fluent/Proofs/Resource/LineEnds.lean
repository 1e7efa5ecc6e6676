/-
# How lines end does not matter

Lines may end with a line feed, with a carriage return or with both.  Line ends are unified in two
passes, of which the first one could make or hide work for the second one; together they do what one
pass over the text does.

* `unifyLineEnds_eq` : two passes do what one pass does;
* `parse_lineEnds` : a text is read as the same resource however its lines end.
-/
import Fluent.Proofs.Resource.RoundTrip

namespace Fluent

/-! ## One pass -/

/-- The text with a line feed in place of each pair of a carriage return and a line feed, and of
each other carriage return. -/
def rewriteLineEnds : List Char → List Char
  | [] => []
  | '\r' :: '\n' :: text => '\n' :: rewriteLineEnds text
  | '\r' :: text => '\n' :: rewriteLineEnds text
  | ch :: text => ch :: rewriteLineEnds text

/-- Without carriage returns there is nothing to rewrite. -/
theorem rewriteLineEnds_eq_self {text : List Char} (h : '\r' ∉ text) :
    rewriteLineEnds text = text := by
  fun_induction rewriteLineEnds text with
  | case1 => rfl
  | case2 | case3 => exact absurd List.mem_cons_self h
  | case4 ch text _ _ ih => rw [ih fun hmem => h (List.mem_cons_of_mem _ hmem)]

/-- Dropping the carriage returns of pairs makes no new pairs: what is left of the others is
rewritten one by one. -/
theorem returnsToLineFeeds_dropPairedReturns (text : List Char) :
    returnsToLineFeeds (dropPairedReturns text) = rewriteLineEnds text := by
  fun_induction rewriteLineEnds text with
  | case1 => rfl
  | case2 text ih => exact congrArg _ ih
  | case3 text hpair ih =>
    rw [dropPairedReturns]
    · exact congrArg _ ih
    · rintro rest - rfl
      exact hpair rest rfl
  | case4 ch text hpair hreturn ih =>
    rw [dropPairedReturns]
    · rw [← ih]
      exact congrArg (· :: _) (if_neg hreturn)
    · rintro rest rfl rfl
      exact hreturn rfl

/-- **The two passes that unify line ends do what one pass does.** -/
theorem unifyLineEnds_eq (text : List Char) : unifyLineEnds text = rewriteLineEnds text := by
  rw [unifyLineEnds]
  split
  · exact returnsToLineFeeds_dropPairedReturns text
  · rename_i hclean
    exact (rewriteLineEnds_eq_self (by simpa using hclean)).symm

/-! ## Other line ends -/

/-- The text with another end of its lines in place of each line feed. -/
def withLineEnd (ending : List Char) (text : List Char) : List Char :=
  text.flatMap fun ch => if ch = '\n' then ending else [ch]

/-- Only line feeds are replaced by the line ending. -/
theorem withLineEnd_cons (ending : List Char) (ch : Char) (text : List Char) :
    withLineEnd ending (ch :: text) =
      (if ch = '\n' then ending else [ch]) ++ withLineEnd ending text :=
  List.flatMap_cons

/-- A character that is no carriage return is kept. -/
theorem rewriteLineEnds_cons {ch : Char} (h : ch ≠ '\r') (text : List Char) :
    rewriteLineEnds (ch :: text) = ch :: rewriteLineEnds text := by
  rw [rewriteLineEnds]
  · exact fun _ hch _ => h hch
  · exact h

/-- A carriage return without a line feed behind it becomes one. -/
theorem rewriteLineEnds_return {text : List Char} (h : text.head? ≠ some '\n') :
    rewriteLineEnds ('\r' :: text) = '\n' :: rewriteLineEnds text := by
  rw [rewriteLineEnds]
  rintro rest rfl
  exact h rfl

/-- Where lines end with carriage returns no line feeds are left. -/
theorem head?_withLineEnd_return (text : List Char) :
    (withLineEnd ['\r'] text).head? ≠ some '\n' := by
  cases text with
  | nil => exact nofun
  | cons ch text =>
    rw [withLineEnd_cons]
    split
    · exact fun h => absurd (Option.some.inj h) (by decide)
    · rename_i hfeed
      exact fun h => hfeed (Option.some.inj h)

/-- Pairs of carriage returns and line feeds are rewritten to line feeds. -/
theorem rewriteLineEnds_withPairs {text : List Char} (h : '\r' ∉ text) :
    rewriteLineEnds (withLineEnd ['\r', '\n'] text) = text := by
  induction text with
  | nil => rfl
  | cons ch text ih =>
    obtain ⟨hch, hrest⟩ := not_or.1 (mt List.mem_cons.2 h)
    rw [withLineEnd_cons]
    split
    · rename_i hfeed
      exact (congrArg _ (ih hrest)).trans (congrArg (· :: text) hfeed.symm)
    · exact (rewriteLineEnds_cons (Ne.symm hch) _).trans (congrArg _ (ih hrest))

/-- So are carriage returns alone. -/
theorem rewriteLineEnds_withReturns {text : List Char} (h : '\r' ∉ text) :
    rewriteLineEnds (withLineEnd ['\r'] text) = text := by
  induction text with
  | nil => rfl
  | cons ch text ih =>
    obtain ⟨hch, hrest⟩ := not_or.1 (mt List.mem_cons.2 h)
    rw [withLineEnd_cons]
    split
    · rename_i hfeed
      have hreturn := rewriteLineEnds_return (head?_withLineEnd_return text)
      exact hreturn.trans ((congrArg _ (ih hrest)).trans (congrArg (· :: text) hfeed.symm))
    · exact (rewriteLineEnds_cons (Ne.symm hch) _).trans (congrArg _ (ih hrest))

/-! ## Reading -/

/-- Where the size of sources is not limited, sources that differ in their line ends only are read
as the same resource. -/
theorem parse_eq_of_unifyLineEnds_eq {settings : ParserSettings} (h : settings.maxSourceSize = 0)
    {source other : List Char} (hsame : unifyLineEnds source = unifyLineEnds other) :
    Resource.parse settings source = Resource.parse settings other := by
  have hallowed : ∀ text,
      ¬(settings.maxSourceSize ≠ 0 ∧ settings.maxSourceSize < utf8Length text) :=
    fun _ hlimit => hlimit.1 h
  rw [Resource.parse, Resource.parse, Resource.parseBy, Resource.parseBy, if_neg (hallowed _),
    if_neg (hallowed _), hsame]

/-- **How lines end does not matter.**  Where the size of sources is not limited, a text is read as
the same resource, junk and spans included, whether its lines end with line feeds, with carriage
returns and line feeds, or with carriage returns alone.  Unifying line ends is one pass over any
text, leaves no carriage returns, and changes nothing the second time. -/
theorem parse_lineEnds :
    (∀ (settings : ParserSettings) (text : List Char), settings.maxSourceSize = 0 → '\r' ∉ text →
      Resource.parse settings (withLineEnd ['\r', '\n'] text) = Resource.parse settings text ∧
        Resource.parse settings (withLineEnd ['\r'] text) = Resource.parse settings text) ∧
    ∀ text : List Char, unifyLineEnds text = rewriteLineEnds text ∧ '\r' ∉ unifyLineEnds text ∧
      unifyLineEnds (unifyLineEnds text) = unifyLineEnds text := by
  refine ⟨fun settings text hsize hclean => ?_, fun text => ?_⟩
  · have hpairs : unifyLineEnds (withLineEnd ['\r', '\n'] text) = unifyLineEnds text := by
      rw [unifyLineEnds_eq, rewriteLineEnds_withPairs hclean, unifyLineEnds_eq_self hclean]
    have hreturns : unifyLineEnds (withLineEnd ['\r'] text) = unifyLineEnds text := by
      rw [unifyLineEnds_eq, rewriteLineEnds_withReturns hclean, unifyLineEnds_eq_self hclean]
    exact ⟨parse_eq_of_unifyLineEnds_eq hsize hpairs, parse_eq_of_unifyLineEnds_eq hsize hreturns⟩
  · have hclean := return_not_mem_unifyLineEnds text
    exact ⟨unifyLineEnds_eq text, hclean, unifyLineEnds_eq_self hclean⟩

/-- An empty line and a line of junk between two messages. -/
def spacedSource : List Char :=
  "a = é\n b\n\n\x7d ?\n\nc = d".toList

/-- With carriage returns the spans stay those of the text with line feeds. -/
theorem parse_lineEnds_spaced :
    withLineEnd ['\r', '\n'] spacedSource = "a = é\r\n b\r\n\r\n\x7d ?\r\n\r\nc = d".toList ∧
      '\r' ∉ spacedSource ∧ (Resource.parse { maxSourceSize := 0 } spacedSource).junk.length = 1 ∧
      Resource.parse { maxSourceSize := 0 } (withLineEnd ['\r', '\n'] spacedSource) =
        Resource.parse { maxSourceSize := 0 } spacedSource ∧
      Resource.parse { maxSourceSize := 0 } (withLineEnd ['\r'] spacedSource) =
        Resource.parse { maxSourceSize := 0 } spacedSource := by
  have hclean : '\r' ∉ spacedSource := by decide
  exact ⟨by decide, hclean, by decide +kernel, parse_lineEnds.1 _ spacedSource rfl hclean⟩

end Fluent
