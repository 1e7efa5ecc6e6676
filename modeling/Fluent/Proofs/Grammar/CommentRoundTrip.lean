/-
# Comments are read as they were printed

A printed comment is read again as the same comment, up to the line feed behind its last line,
exactly if no further line of its level follows.  Its content may be any text: lines may be empty,
and they may themselves look like lines of a comment.

* `isCommentLine_iff` : which texts begin with a line of a comment;
* `comment_stops` : a comment is read to the last of its lines;
* `comment_print` : the printed comment is read again.
-/
import Fluent.Proofs.Grammar.Comments

namespace Fluent

namespace Grammar

/-! ## Where a comment ends -/

/-- The text begins with a line of a comment of the level: with its marks, and behind them the end
of the line, the end of the text or a space. -/
def BeginsCommentLine (level : CommentLevel) (text : List Char) : Prop :=
  ∃ rest, text = List.replicate level.hashes '#' ++ rest ∧
    ∀ ch, rest.head? = some ch → ch = ' ' ∨ ch = '\n'

/-- The lookahead of a comment tells whether another one of its lines follows. -/
theorem isCommentLine_iff {level : CommentLevel} {c : Cursor} :
    isCommentLine level c = true ↔ BeginsCommentLine level c.rest := by
  rw [isCommentLine, Bool.and_eq_true, beq_iff_eq]
  constructor
  · rintro ⟨hlength, hmark⟩
    have hmarks : c.leading (· == '#') = List.replicate level.hashes '#' :=
      List.eq_replicate_iff.2 ⟨hlength, fun ch hch => by simpa using Cursor.all_leading _ c ch hch⟩
    refine ⟨(c.skipWhile (· == '#')).rest, ?_, fun ch hch => ?_⟩
    · rw [← hmarks]
      exact (Cursor.passes_skipWhile (· == '#') c).1
    · rw [show (c.skipWhile (· == '#')).current = some ch from hch] at hmark
      simpa using hmark
  · rintro ⟨rest, hc, hrest⟩
    have hp := Cursor.passes_of_rest hc
    have hall : ∀ ch ∈ List.replicate level.hashes '#', (ch == '#') = true := by
      intro ch hch
      simp [(List.mem_replicate.1 hch).2]
    -- a space and a line feed are no marks, so there are no more of them
    have hstops : Stops (· == '#') rest := by
      intro ch hch
      rcases hrest ch hch with rfl | rfl <;> rfl
    rw [Cursor.leading_eq hp hall hstops, Cursor.skipWhile_eq_iff.2 ⟨_, hp, hall, hstops⟩]
    refine ⟨List.length_replicate, ?_⟩
    cases hmark : rest.head? with
    | none => rw [Cursor.current, hmark]
    | some ch =>
      rw [Cursor.current, hmark]
      simpa using hrest ch hmark

/-- Behind the lines that were read there is no further one of the same level. -/
theorem commentLines_stops {level : CommentLevel} {before lines : List (List Char)}
    {c stop : Cursor} (h : commentLines level before c = .ok (lines, stop)) :
    ¬(stop.current = some '\n' ∧ isCommentLine level stop.bump = true) := by
  fun_induction commentLines level before c with
  | case1 => cases h
  | case2 _ _ _ _ _ _ ih => exact ih h
  | case3 _ _ _ _ _ hlast =>
    obtain ⟨-, rfl⟩ := Prod.mk.inj (Except.ok.inj h)
    exact hlast

/-- A comment is read to the last of its lines. -/
theorem comment_stops {found : Comment} {c stop : Cursor}
    (h : Grammar.comment c = .ok (found, stop)) :
    ¬(stop.current = some '\n' ∧ isCommentLine found.level stop.bump = true) := by
  obtain ⟨level, -, h⟩ := bind_eq_ok.1 h
  obtain ⟨⟨lines, last⟩, hlines, h⟩ := bind_eq_ok.1 h
  obtain ⟨rfl, rfl⟩ := Prod.mk.inj (Except.ok.inj h)
  exact commentLines_stops hlines

/-! ## Printed comments -/

/-- The place of the line feed behind the last line of a printed comment. -/
theorem utf8Length_print (found : Comment) :
    utf8Length found.print - 1 = utf8Length found.body := by
  rw [found.print_eq, utf8Length_append]
  rfl

/-- A printed comment is read again, up to its last line feed, exactly if no further line of its
level follows. -/
theorem comment_print_iff (found : Comment) (after : List Char) (pos : Nat) :
    Grammar.comment ⟨found.print ++ after, pos⟩ =
        .ok (found, ⟨'\n' :: after, pos + (utf8Length found.print - 1)⟩) ↔
      ¬BeginsCommentLine found.level after := by
  rw [utf8Length_print]
  constructor
  · intro h hafter
    exact comment_stops h ⟨rfl, isCommentLine_iff.2 hafter⟩
  · intro hafter
    have hrest : found.print ++ after = found.body ++ '\n' :: after := by
      rw [found.print_eq, List.append_assoc]
      rfl
    refine comment_of_passes (Cursor.passes_of_rest hrest) ⟨.inr rfl, ?_⟩
    exact Bool.eq_false_iff.2 fun hline => hafter (isCommentLine_iff.1 hline)

/-- No line of a comment begins where the text ends. -/
theorem not_beginsCommentLine_nil (level : CommentLevel) : ¬BeginsCommentLine level [] := by
  rintro ⟨rest, hrest, -⟩
  cases level <;> cases hrest

/-- **Comments are read as they were printed.**  Of whatever level and content, a printed comment is
read again, up to the line feed behind its last line, where no further line of its level follows.
So what was read as a comment is read as the same comment once it is printed. -/
theorem comment_print :
    (∀ (found : Comment) (after : List Char) (pos : Nat), ¬BeginsCommentLine found.level after →
      Grammar.comment ⟨found.print ++ after, pos⟩ =
        .ok (found, ⟨'\n' :: after, pos + (utf8Length found.print - 1)⟩)) ∧
    ∀ (c stop : Cursor) (found : Comment), Grammar.comment c = .ok (found, stop) →
      Grammar.comment (.ofText found.print) =
        .ok (found, ⟨['\n'], utf8Length found.print - 1⟩) := by
  refine ⟨fun found after pos hafter => (comment_print_iff found after pos).2 hafter, ?_⟩
  intro _ _ found _
  have hread := (comment_print_iff found [] 0).2 (not_beginsCommentLine_nil _)
  rw [List.append_nil, Nat.zero_add] at hread
  exact hread

/-- A comment whose lines are empty, start with a space or look like comments. -/
def awkwardComment : Comment :=
  ⟨.group, "\n ## a\n# b\n\n"⟩

/-- A comment of another level may follow directly. -/
theorem comment_print_awkward :
    Grammar.comment ⟨awkwardComment.print ++ "# c\nd = e\n".toList, 7⟩ =
        .ok (awkwardComment, ⟨"\n# c\nd = e\n".toList, 31⟩) ∧
      Grammar.comment (.ofText awkwardComment.print) = .ok (awkwardComment, ⟨['\n'], 24⟩) := by
  have hafter : ¬BeginsCommentLine awkwardComment.level "# c\nd = e\n".toList := by
    rintro ⟨rest, hrest, -⟩
    cases hrest
  have hlength : utf8Length awkwardComment.print - 1 = 24 := by decide
  have hread := comment_print.1 awkwardComment "# c\nd = e\n".toList 7 hafter
  have hagain := comment_print.2 _ _ awkwardComment hread
  rw [hlength] at hread hagain
  exact ⟨hread, hagain⟩

end Grammar

end Fluent
