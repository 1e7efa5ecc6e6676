/-
# Where annotations point

The span of an annotation lies within the text that was read and starts between two characters of
it.  It ends between two characters as well, unless it marks the first byte of a character that
takes several: the span of a reason to give up is always one byte long.

* `annotationOf_span_pointsInto` : the reason for junk points to the character where reading gave
  up;
* `annotations_point_into` : so it is for all annotations, and for the labels made of them.
-/
import Fluent.Proofs.Grammar.Positions
import Fluent.Proofs.Resource.WellFormed
import Fluent.Proofs.Text.Boundary
import Fluent.Resource.Diagnostic

namespace Fluent

open Grammar

/-! ## Spans -/

/-- The span is the first byte of a character that takes several. -/
def Span.CutsCharacter (text : List Char) (s : Span) : Prop :=
  ∃ front ch back, text = front ++ ch :: back ∧ 1 < ch.utf8Size ∧
    s = ⟨utf8Length front, utf8Length front + 1⟩

/-- The span lies in the text, starts between two characters, and ends between two characters just
if it does not cut one. -/
structure Span.PointsInto (text : List Char) (s : Span) : Prop where
  start_le : s.start ≤ s.stop
  stop_le : s.stop ≤ utf8Length text
  start : Boundary text s.start
  stop : Boundary text s.stop ↔ ¬s.CutsCharacter text

section Spans

variable {text : List Char} {s : Span}

/-- A span that cuts a character ends at no boundary. -/
theorem Span.CutsCharacter.not_boundary (h : s.CutsCharacter text) : ¬Boundary text s.stop := by
  obtain ⟨front, ch, back, rfl, hwide, rfl⟩ := h
  exact not_boundary_of_within Nat.one_pos hwide

/-- A span between two boundaries cuts no character. -/
theorem Span.pointsInto_of_boundary (hle : s.start ≤ s.stop) (hstop : s.stop ≤ utf8Length text)
    (hs : Boundary text s.start) (ht : Boundary text s.stop) : s.PointsInto text :=
  ⟨hle, hstop, hs, iff_of_true ht fun hcut => hcut.not_boundary ht⟩

/-- From a place in the text the rest of it is marked as a whole. -/
theorem Span.pointsInto_rest {c : Cursor} (h : Cursor.ofText text ≤ c) :
    (Span.mk c.pos (utf8Length text)).PointsInto text :=
  Span.pointsInto_of_boundary (boundary_of_le h).le (Nat.le_refl _) (boundary_of_le h)
    (boundary_utf8Length text)

/-- The reason to give up at a place in the text marks the byte that stands there: a character, or
the first byte of one. -/
theorem annotationOf_span_pointsInto {failure : ParseFailure} {c : Cursor}
    (h : Cursor.ofText text ≤ c) (hpos : failure.position = c.pos) :
    (annotationOf failure (utf8Length text)).span.PointsInto text := by
  have hstart : min failure.position (utf8Length text) = c.pos := by
    rw [hpos]
    exact Nat.min_eq_left (boundary_of_le h).le
  show Span.PointsInto text ⟨min failure.position (utf8Length text),
    min (min failure.position (utf8Length text) + 1) (utf8Length text)⟩
  rw [hstart]
  obtain ⟨front, htext, hfront⟩ := exists_front h
  cases hc : c.rest with
  | nil =>
    -- at the end of the text nothing is marked
    have hend : c.pos = utf8Length text := by rw [htext, hc, List.append_nil, hfront]
    rw [hend, Nat.min_eq_right (Nat.le_succ _)]
    exact Span.pointsInto_of_boundary (Nat.le_refl _) (Nat.le_refl _) (boundary_utf8Length text)
      (boundary_utf8Length text)
  | cons ch back =>
    have hsize : c.pos + (ch.utf8Size + utf8Length back) = utf8Length text := by
      rw [htext, hc, utf8Length_append, hfront, utf8Length_cons]
    have hwidth := ch.utf8Size_pos
    rw [Nat.min_eq_left (by omega)]
    have hbefore : Boundary text c.pos := ⟨front, c.rest, htext, hfront⟩
    rcases Nat.eq_or_lt_of_le hwidth with hone | hwide
    · refine Span.pointsInto_of_boundary (Nat.le_succ _) (show c.pos + 1 ≤ _ by omega) hbefore
        ⟨front ++ [ch], back, by rw [htext, hc, List.append_assoc]; rfl, ?_⟩
      show c.pos + 1 = _
      rw [utf8Length_append, utf8Length_cons, utf8Length_nil, ← hone, hfront]
    · have hcut : Span.CutsCharacter text ⟨c.pos, c.pos + 1⟩ :=
        ⟨front, ch, back, by rw [htext, hc], hwide, by rw [hfront]⟩
      refine ⟨Nat.le_succ _, show c.pos + 1 ≤ _ by omega, hbefore, ?_⟩
      exact iff_of_false hcut.not_boundary (not_not_intro hcut)

end Spans

/-! ## Resources -/

/-- The text that the places in a resource refer to: the source with its line ends unified, or the
source itself if it is too large to be read. -/
def ParserSettings.textRead (settings : ParserSettings) (source : List Char) : List Char :=
  if settings.maxSourceSize ≠ 0 ∧ settings.maxSourceSize < utf8Length source then source
  else unifyLineEnds source

/-- The annotations of an entry point into the text. -/
def Entry.AnnotationsPointInto (text : List Char) : Entry → Prop
  | .junk found => ∀ a ∈ found.annotations, a.span.PointsInto text
  | _ => True

section Junk

variable {text : List Char} {c : Cursor} {failure : ParseFailure}

/-- Junk where a rule gave up points into the text, also where reading stopped with it. -/
theorem junk_pointsInto (h : Cursor.ofText text ≤ c) {rule : Reading (Entry × Cursor)}
    (hgives : GivesUpFrom c rule) (hr : rule = .error failure) (limit : Nat) :
    Entry.AnnotationsPointInto text
        (.junk (junkBetween failure (utf8Length text) c (nextItemStart c))) ∧
      Entry.AnnotationsPointInto text
        (.junk (finalJunk failure limit (utf8Length text) c (nextItemStart c))) := by
  obtain ⟨d, hd, hpos⟩ := hgives failure hr
  have hreason := annotationOf_span_pointsInto (Cursor.le_trans h hd) hpos
  refine ⟨fun a ha => ?_, fun a ha => ?_⟩
  · obtain rfl := List.mem_singleton.1 ha
    exact hreason
  · rcases List.mem_cons.1 ha with rfl | ha
    · exact hreason
    · obtain rfl := List.mem_singleton.1 ha
      exact Span.pointsInto_rest (Cursor.le_trans h (le_nextItemStart c))

/-- The annotation of a text that is too large points into this text. -/
theorem oversizedJunk_pointsInto (limit : Nat) (source : List Char) :
    Entry.AnnotationsPointInto source (.junk (oversizedJunk limit source)) := by
  intro a ha
  obtain rfl := List.mem_singleton.1 ha
  exact Span.pointsInto_rest (Cursor.le_refl (.ofText source))

end Junk

/-- The annotations of all entries of a resource point into the text that was read. -/
theorem parse_annotationsPointInto (settings : ParserSettings) (source : List Char) :
    ∀ e ∈ (Resource.parse settings source).entries,
      e.AnnotationsPointInto (settings.textRead source) := by
  rw [Resource.parse, Rule.ext_run (entryTwice_run settings.maxNestingDepth), Resource.parseBy,
    ParserSettings.textRead]
  split
  · intro e he
    obtain rfl := List.mem_singleton.1 he
    exact oversizedJunk_pointsInto settings.maxSourceSize source
  · have hstart := Cursor.le_skipBlankLines (Cursor.ofText (unifyLineEnds source))
    have hgives := nested_givesUpFrom settings.maxNestingDepth settings.maxNestingDepth
    refine attachComments_all (fun {e} hparts => ?_) (itemsFrom_forall
      (P := fun e => e.parts = [e] ∧ e.AnnotationsPointInto (unifyLineEnds source)) ?_ ?_ (by simp))
    · cases e with
      | junk junk => exact hparts _ (List.mem_singleton_self _)
      | message _ | term _ | comment _ => trivial
    · intro d stop found _ hr
      obtain ⟨last, -, he, -⟩ := entryLine_eq_ok_iff.1 hr
      refine ⟨entry_parts he, ?_⟩
      rcases entry_cases he with ⟨_, rfl, -⟩ | ⟨_, rfl, -⟩ | ⟨_, rfl, -⟩ <;> trivial
    · intro d failure hd hr
      obtain ⟨hbetween, hfinal⟩ := junk_pointsInto (Cursor.le_trans hstart hd)
        (hgives.entryLine d) hr settings.maxParseErrors
      exact ⟨⟨rfl, hbetween⟩, rfl, hfinal⟩

/-- **Annotations point into the text that was read.**  Every span of an annotation, and every label
made of one, lies in the text and starts between two characters of it; it ends between two
characters just if it is not the first byte of a character that takes several. -/
theorem annotations_point_into (settings : ParserSettings) (source : List Char) :
    (∀ junk ∈ (Resource.parse settings source).junk, ∀ a ∈ junk.annotations,
      a.span.PointsInto (settings.textRead source)) ∧
    ∀ d ∈ (Resource.parse settings source).diagnostics,
      Span.PointsInto (settings.textRead source)
        ⟨d.label.offset, d.label.offset + d.label.length⟩ := by
  have hspans : ∀ junk ∈ (Resource.parse settings source).junk, ∀ a ∈ junk.annotations,
      a.span.PointsInto (settings.textRead source) := by
    intro junk hjunk
    obtain ⟨e, he, heq⟩ := List.mem_filterMap.1 hjunk
    have hpoints := parse_annotationsPointInto settings source e he
    cases e with
    | junk found =>
      obtain rfl := Option.some.inj heq
      exact hpoints
    | message _ | term _ | comment _ => cases heq
  refine ⟨hspans, fun d hd => ?_⟩
  obtain ⟨junk, hjunk, hd⟩ := List.mem_flatMap.1 hd
  obtain ⟨a, ha, rfl⟩ := List.mem_map.1 hd
  have hspan := hspans junk hjunk a ha
  have hlabel : a.span.start + (a.span.stop - a.span.start) = a.span.stop :=
    Nat.add_sub_cancel' hspan.start_le
  show Span.PointsInto _ ⟨a.span.start, a.span.start + (a.span.stop - a.span.start)⟩
  rw [hlabel]
  exact hspan

/-- A line that starts with a letter outside ASCII: the one label that is made of it ends within
that letter. -/
theorem label_cuts_character :
    (Resource.parse {} "é\n".toList).diagnostics.map Diagnostic.label =
        [⟨"unexpected input here", 0, 1⟩] ∧
      ({} : ParserSettings).textRead "é\n".toList = "é\n".toList ∧ ¬Boundary "é\n".toList 1 := by
  have hletter : 1 < 'é'.utf8Size := by decide
  have hwithin : ¬Boundary ([] ++ 'é' :: ['\n']) (utf8Length [] + 1) :=
    not_boundary_of_within Nat.one_pos hletter
  exact ⟨by decide +kernel, by decide +kernel, hwithin⟩

end Fluent
