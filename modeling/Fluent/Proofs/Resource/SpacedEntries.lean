/-
# Entries of spaced texts

An entry that can be read from a text can be read from the same text with blank lines added.  A
comment may end earlier there, but where one of its lines stands a comment is read in any case.

* `Nested.Steady.entryLine` : the rule for entries reads from both texts.
-/
import Fluent.Proofs.Grammar.Comments
import Fluent.Proofs.Grammar.Steadiness
import Fluent.Proofs.Resource.Segments

namespace Fluent

open Grammar

/-- From a line of a comment on, an entry is read. -/
theorem entryLine_of_isCommentLine (deep : Nested) {level : CommentLevel} {c : Cursor}
    (h : isCommentLine level c = true) : ∃ e stop, (entryLine deep).run c = .ok (e, stop) := by
  obtain ⟨hc, found, last, hread, hlast⟩ := comment_of_isCommentLine h
  have hentry : Grammar.entry deep c = .ok (.comment found, last) := by
    rw [Grammar.entry, if_pos hc, hread]
    rfl
  rcases hlast with hnone | hfeed
  · have hnil : last.rest = [] := by simpa [Cursor.current] using hnone
    exact ⟨_, last, entryLine_eq_ok_iff.2 ⟨last, [], hentry, .refl last, .inr ⟨rfl, hnil⟩⟩⟩
  · exact ⟨_, last.bump, entryLine_eq_ok_iff.2
      ⟨last, ['\n'], hentry, Cursor.passes_bump hfeed, .inl rfl⟩⟩

namespace Grammar

variable {c d : Cursor}

/-- A comment line of a level starts in both texts or in neither. -/
theorem Spaced.isCommentLine_eq (h : Spaced c.rest d.rest) (level : CommentLevel) :
    isCommentLine level d = isCommentLine level c := by
  obtain ⟨hlead, hskip⟩ := @Spaced.skipWhile _ _ h (· == '#') (by decide)
  rw [isCommentLine, isCommentLine, hlead, hskip.current_eq]

theorem Spaced.lineEnd (h : Spaced c.rest d.rest) :
    Carries (fun _ _ => True) (Fluent.lineEnd c) (Fluent.lineEnd d) := by
  rw [Fluent.lineEnd, Fluent.lineEnd, h.current_eq]
  split
  · exact .ok trivial
  split
  · exact .ok trivial
  · exact .fail _ _ _

namespace Nested.Steady

variable {deep : Nested} (h : deep.Steady)
include h

/-- The value behind an equals sign is read from the spaced text, and is empty in both or in
neither. -/
theorem assigned (hs : Spaced c.rest d.rest) :
    Carries (Beside fun p q => q.isSome = p.isSome) (Grammar.assigned deep c)
      (Grammar.assigned deep d) :=
  (hs.skipBlankInline.2.expectChar (by decide)).bind fun _ _ hstart =>
    h.pattern hstart.skipBlankInline.2

theorem oneAttribute (hs : Spaced c.rest d.rest) :
    Carries (Beside fun _ _ => True) (Grammar.oneAttribute deep c)
      (Grammar.oneAttribute deep d) := by
  refine (hs.expectChar (by decide)).bind fun start start' hstart => ?_
  refine hstart.identifier.bind ?_
  rintro ⟨name, point⟩ ⟨name', point'⟩ ⟨_, hpoint⟩
  refine (h.assigned hpoint).bind ?_
  rintro ⟨value, stop⟩ ⟨value', stop'⟩ ⟨hsome, hstop⟩
  cases value with
  | none => exact .fail _ _ _
  | some value =>
    obtain ⟨other, rfl⟩ := Option.isSome_iff_exists.1 hsome
    exact .ok ⟨trivial, hstop⟩

/-- A list of attributes is read from the spaced text, and is empty in both or in neither. -/
theorem attributesFrom {before before' : List Attribute} {c d : Cursor}
    (hbefore : before'.isEmpty = before.isEmpty) (hs : Spaced c.rest d.rest) :
    Carries (Beside fun p q => q.isEmpty = p.isEmpty) (Grammar.attributesFrom deep before c)
      (Grammar.attributesFrom deep before' d) := by
  have hline : Near c.skipBlank.rest d.skipBlank.rest := Near.skipBlank (.inl hs)
  rw [attributesFrom_eq deep before, attributesFrom_eq deep before', hs.current_eq,
    hline.current_eq]
  split
  · rename_i hpoint
    refine (h.oneAttribute (hline.spaced hpoint.2 (by decide))).bind_of_ok ?_
    rintro ⟨a, stop⟩ ⟨a', stop'⟩ hread ⟨_, hstop⟩
    have hlt : stop.rest.length < c.rest.length := Cursor.length_lt_of_lt
      (Cursor.lt_of_le_of_lt (Cursor.le_skipBlank c) (oneAttribute_lt hread))
    exact attributesFrom rfl hstop
  · refine .ok ⟨?_, hs⟩
    show before'.reverse.isEmpty = before.reverse.isEmpty
    rw [List.isEmpty_reverse, List.isEmpty_reverse, hbefore]
termination_by c.rest.length

/-- A message is read from the spaced text: it needs a value or an attribute in both. -/
theorem message (hs : Spaced c.rest d.rest) :
    Carries (Beside fun _ _ => True) (Grammar.message deep c) (Grammar.message deep d) := by
  refine hs.identifier.bind ?_
  rintro ⟨name, point⟩ ⟨name', point'⟩ ⟨_, hpoint⟩
  refine (h.assigned hpoint).bind ?_
  rintro ⟨value, last⟩ ⟨value', last'⟩ ⟨hsome, hlast⟩
  refine (h.attributesFrom rfl hlast).bind ?_
  rintro ⟨list, stop⟩ ⟨list', stop'⟩ ⟨hempty, hstop⟩
  have hfields : (value'.isNone && list'.isEmpty) = (value.isNone && list.isEmpty) := by
    rw [← Option.not_isSome, ← Option.not_isSome]
    simp_all
  dsimp only
  rw [hfields]
  split
  · exact .fail _ _ _
  · exact .ok ⟨trivial, hstop⟩

theorem term (hs : Spaced c.rest d.rest) :
    Carries (Beside fun _ _ => True) (Grammar.term deep c) (Grammar.term deep d) := by
  refine (hs.expectChar (by decide)).bind fun start start' hstart => ?_
  refine hstart.identifier.bind ?_
  rintro ⟨name, point⟩ ⟨name', point'⟩ ⟨_, hpoint⟩
  refine (h.assigned hpoint).bind ?_
  rintro ⟨value, last⟩ ⟨value', last'⟩ ⟨hsome, hlast⟩
  cases value with
  | none => exact .fail _ _ _
  | some value =>
    obtain ⟨other, rfl⟩ := Option.isSome_iff_exists.1 hsome
    exact (h.attributesFrom rfl hlast).bind fun _ _ hstop => .ok ⟨trivial, hstop.2⟩

theorem entryLine (hs : Spaced c.rest d.rest) :
    Carries (fun _ _ => True) ((entryLine deep).run c) ((entryLine deep).run d) := by
  by_cases hmark : c.current = some '#'
  · rintro ⟨found, stop⟩ hread
    obtain ⟨mid, ending, hentry, -⟩ := entryLine_eq_ok_iff.1 hread
    rw [entry, if_pos hmark] at hentry
    obtain ⟨⟨found', last⟩, hcomment, -⟩ := bind_eq_ok.1 hentry
    -- a comment is not read in step, as blank lines may be added inside it
    obtain ⟨level, hlevel⟩ := isCommentLine_of_comment hcomment
    rw [← hs.isCommentLine_eq] at hlevel
    obtain ⟨e, stop', hread'⟩ := entryLine_of_isCommentLine deep hlevel
    exact ⟨(e, stop'), hread', trivial⟩
  · have hentry : Carries (Beside fun _ _ => True) (entry deep c) (entry deep d) := by
      rw [entry, entry, hs.current_eq, if_neg hmark, if_neg hmark]
      split
      · exact (h.term hs).bind fun _ _ hstop => .ok ⟨trivial, hstop.2⟩
      split
      · exact (h.message hs).bind fun _ _ hstop => .ok ⟨trivial, hstop.2⟩
      · exact .error _ _
    exact hentry.bind fun _ _ hstop => hstop.2.lineEnd.bind fun _ _ _ => .ok trivial

end Nested.Steady

end Grammar

end Fluent
