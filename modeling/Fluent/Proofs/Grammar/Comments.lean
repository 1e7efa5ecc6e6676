/-
# Printed comments are read again

A comment is printed line by line, each line behind its marks, and read again as long as no further
line of the same level follows.

* `splitLines_line` : the lines of a text hold no line feeds;
* `commentLines_of_passes` : marked lines are read one after the other;
* `comment_of_passes` : every comment is read again;
* `comment_ok` : what was read as a comment holds no carriage returns.
-/
import Fluent.Grammar.Comment
import Fluent.Proofs.Text.Passage
import Fluent.Resource.Print

namespace Fluent

/-! ## Lines -/

/-- The lines of a text hold what the text holds, apart from line feeds. -/
theorem splitLines_line {text line : List Char} (h : line ∈ splitLines text) :
    '\n' ∉ line ∧ ∀ ch ∈ line, ch ∈ text := by
  induction text generalizing line with
  | nil =>
    obtain rfl := List.mem_singleton.1 h
    exact ⟨List.not_mem_nil, nofun⟩
  | cons ch text ih =>
    rw [splitLines] at h
    split at h
    · rename_i hnil
      exact absurd hnil (splitLines_ne_nil text)
    rename_i first lines hlines
    rw [hlines] at ih
    have hrest : ∀ x ∈ lines, '\n' ∉ x ∧ ∀ y ∈ x, y ∈ ch :: text := fun x hx =>
      (ih (List.mem_cons_of_mem _ hx)).imp_right fun hmem y hy => List.mem_cons_of_mem _ (hmem y hy)
    have hfirst := ih List.mem_cons_self
    -- a line feed starts a line of its own; every other character goes in front of the first line
    split at h
    · rcases List.mem_cons.1 h with rfl | h
      · exact ⟨List.not_mem_nil, nofun⟩
      · rcases List.mem_cons.1 h with rfl | h
        · exact hfirst.imp_right fun hmem y hy => List.mem_cons_of_mem _ (hmem y hy)
        · exact hrest line h
    · rename_i hfeed
      rcases List.mem_cons.1 h with rfl | h
      · constructor
        · intro hmem
          rcases List.mem_cons.1 hmem with heq | hmem
          · exact hfeed heq.symm
          · exact hfirst.1 hmem
        · intro y hy
          rcases List.mem_cons.1 hy with rfl | hy
          · exact List.mem_cons_self
          · exact List.mem_cons_of_mem _ (hfirst.2 y hy)
      · exact hrest line h

/-- Joining adds only line feeds. -/
theorem not_mem_joinLines {ch : Char} (hfeed : ch ≠ '\n') {lines : List (List Char)}
    (h : ∀ line ∈ lines, ch ∉ line) : ch ∉ joinLines lines := by
  induction lines with
  | nil => exact List.not_mem_nil
  | cons line lines ih =>
    have hfirst := h line List.mem_cons_self
    have hrest := ih fun x hx => h x (List.mem_cons_of_mem _ hx)
    cases lines with
    | nil => simpa [joinLines, List.intercalate] using hfirst
    | cons next lines =>
      rw [joinLines_cons_cons]
      simp [hfirst, hrest, hfeed]

/-- A line of a comment without the line feed behind it. -/
def markedLine (level : CommentLevel) (line : List Char) : List Char :=
  List.replicate level.hashes '#' ++ (if line.isEmpty then [] else ' ' :: line)

/-- The lines of a comment without the line feed behind the last of them. -/
def Comment.body (c : Comment) : List Char :=
  joinLines ((splitLines c.content.toList).map (markedLine c.level))

/-- The lines of a comment are printed with their marks, a line feed behind each. -/
theorem printCommentLines_eq (level : CommentLevel) {lines : List (List Char)} (h : lines ≠ []) :
    lines.flatMap (printCommentLine level) =
      joinLines (lines.map (markedLine level)) ++ ['\n'] := by
  induction lines with
  | nil => exact absurd rfl h
  | cons line lines ih =>
    cases lines with
    | nil => simp [printCommentLine, markedLine, joinLines, List.intercalate]
    | cons next lines =>
      rw [List.flatMap_cons, ih (by simp), List.map_cons, List.map_cons, List.map_cons,
        joinLines_cons_cons]
      simp [printCommentLine, markedLine]

/-- A printed comment is its body with a line feed behind it. -/
theorem Comment.print_eq (c : Comment) : c.print = c.body ++ ['\n'] :=
  printCommentLines_eq c.level (splitLines_ne_nil _)

/-- Every printed comment starts with a mark. -/
theorem Comment.body_cons (c : Comment) : ∃ text, c.body = '#' :: text := by
  obtain ⟨line, lines, hlines⟩ := List.exists_cons_of_ne_nil (splitLines_ne_nil c.content.toList)
  have hmark : ∃ text, markedLine c.level line = '#' :: text := by
    rw [markedLine]
    cases c.level <;> exact ⟨_, rfl⟩
  obtain ⟨text, htext⟩ := hmark
  rw [Comment.body, hlines, List.map_cons, htext]
  cases lines with
  | nil => exact ⟨text, by simp [joinLines, List.intercalate]⟩
  | cons next lines => exact ⟨_, by rw [List.map_cons, joinLines_cons_cons, List.cons_append]⟩

/-- A comment without carriage returns is printed without them. -/
theorem Comment.noReturn {c : Comment} (h : '\r' ∉ c.content.toList) : '\r' ∉ c.print := by
  intro hmem
  obtain ⟨line, hline, hmem⟩ := List.mem_flatMap.1 hmem
  have hreturn : '\r' ∉ line := fun hch => h ((splitLines_line hline).2 _ hch)
  rw [printCommentLine] at hmem
  split at hmem
  · simp at hmem
  · simp [hreturn] at hmem

namespace Grammar

/-! ## Single lines -/

/-- The line goes on with neither marks nor anything else. -/
def AtLineEnd (c : Cursor) : Prop :=
  c.current = none ∨ c.current = some '\n'

/-- No run of other characters goes on there. -/
theorem AtLineEnd.stops {test : Char → Bool} {c : Cursor} (h : AtLineEnd c)
    (hfeed : test '\n' = false) : Stops test c.rest := by
  rcases h with hnone | hc
  · intro ch hch
    exact absurd (hnone.symm.trans hch) (by simp)
  · exact Cursor.stops_of_current hc hfeed

/-- Behind its marks a line of a comment is empty or goes on with a space. -/
theorem mark_of_passes {level : CommentLevel} {line : List Char} {c stop : Cursor}
    (hp : c.Passes (markedLine level line) stop) (hstop : AtLineEnd stop) :
    ∃ mark, c.leading (· == '#') = List.replicate level.hashes '#' ∧
      c.skipWhile (· == '#') = mark ∧ c.advance level.hashes = mark ∧
        (line = [] ∧ mark = stop ∨ mark.Passes (' ' :: line) stop) := by
  obtain ⟨mark, hmarks, hrest⟩ := hp.split
  have hline : line = [] ∧ mark = stop ∨ mark.Passes (' ' :: line) stop := by
    cases line with
    | nil => exact .inl ⟨rfl, hrest.eq_of_nil.symm⟩
    | cons ch line => exact .inr hrest
  -- the marks end at a space or at the end of the line
  have hstops : Stops (· == '#') mark.rest := by
    rcases hline with ⟨-, rfl⟩ | hspace
    · exact hstop.stops (by decide)
    · exact Cursor.stops_of_current hspace.current_cons (by decide)
  have hall : ∀ ch ∈ List.replicate level.hashes '#', (ch == '#') = true := by
    intro ch hch
    simp [(List.mem_replicate.1 hch).2]
  refine ⟨mark, Cursor.leading_eq hmarks hall hstops,
    Cursor.skipWhile_eq_iff.2 ⟨_, hmarks, hall, hstops⟩, ?_, hline⟩
  have hadvance := Cursor.advance_eq hmarks
  rwa [List.length_replicate] at hadvance

/-- A printed line of a comment is recognised as a line of its level. -/
theorem isCommentLine_of_passes {level : CommentLevel} {line : List Char} {c stop : Cursor}
    (hp : c.Passes (markedLine level line) stop) (hstop : AtLineEnd stop) :
    isCommentLine level c = true := by
  obtain ⟨mark, hlead, hskip, -, hline⟩ := mark_of_passes hp hstop
  rw [isCommentLine, hlead, hskip, List.length_replicate]
  rcases hline with ⟨-, rfl⟩ | hspace
  · rcases hstop with hc | hc <;> simp [hc]
  · simp [hspace.current_cons]

/-- The level of a comment is told from its first printed line. -/
theorem commentLevel_of_passes {level : CommentLevel} {line : List Char} {c stop : Cursor}
    (hp : c.Passes (markedLine level line) stop) (hstop : AtLineEnd stop) :
    commentLevel c = .ok level := by
  obtain ⟨mark, hlead, -⟩ := mark_of_passes hp hstop
  rw [commentLevel, hlead, List.length_replicate]
  cases level <;> rfl

/-- A marked line is read up to its end. -/
theorem commentLine_of_passes {level : CommentLevel} {line : List Char} {c stop : Cursor}
    (hp : c.Passes (markedLine level line) stop) (hfeed : '\n' ∉ line) (hstop : AtLineEnd stop) :
    commentLine level c = .ok (line, stop) := by
  obtain ⟨mark, -, -, hadvance, hline⟩ := mark_of_passes hp hstop
  rw [commentLine, hadvance]
  rcases hline with ⟨rfl, rfl⟩ | hspace
  · rcases hstop with hc | hc
    · rw [hc]
    · rw [hc]
      rfl
  · obtain ⟨start, hspace, hbody⟩ := hspace.uncons
    have hall : ∀ ch ∈ line, (ch != '\n') = true := by
      intro ch hch
      simpa using fun heq : ch = '\n' => hfeed (heq ▸ hch)
    have hstops : Stops (· != '\n') stop.rest := hstop.stops (by decide)
    rw [hspace.current_cons, Cursor.bump_eq hspace]
    show Except.ok (start.leading (· != '\n'), start.skipWhile (· != '\n')) = _
    rw [Cursor.leading_eq hbody hall hstops, Cursor.skipWhile_eq_iff.2 ⟨_, hbody, hall, hstops⟩]

/-! ## Whole comments -/

/-- Joined lines start with the first of them. -/
theorem first_of_joined {level : CommentLevel} {line : List Char} {lines : List (List Char)}
    {c stop : Cursor} (hp : c.Passes (joinLines ((line :: lines).map (markedLine level))) stop)
    (hstop : AtLineEnd stop) : ∃ last, c.Passes (markedLine level line) last ∧ AtLineEnd last := by
  cases lines with
  | nil =>
    have hjoin : joinLines ([line].map (markedLine level)) = markedLine level line := by
      simp [joinLines, List.intercalate]
    rw [hjoin] at hp
    exact ⟨stop, hp, hstop⟩
  | cons next lines =>
    rw [List.map_cons, List.map_cons, joinLines_cons_cons] at hp
    obtain ⟨last, hmarked, hlast⟩ := hp.split
    exact ⟨last, hmarked, .inr hlast.current_cons⟩

/-- A line is read, and then another one, or the comment ends. -/
theorem commentLines_eq_bind (level : CommentLevel) (before : List (List Char)) (c : Cursor) :
    commentLines level before c = (do
      let (line, stop) ← commentLine level c
      if stop.current = some '\n' ∧ isCommentLine level stop.bump = true then
        commentLines level (line :: before) stop.bump
      else .ok ((line :: before).reverse, stop)) := by
  rw [commentLines]
  split <;> rename_i hl <;> rw [hl] <;> rfl

/-- Another line of the comment is read, or the comment ends. -/
theorem commentLines_eq {level : CommentLevel} {before : List (List Char)} {c stop : Cursor}
    {line : List Char} (h : commentLine level c = .ok (line, stop)) :
    commentLines level before c =
      if stop.current = some '\n' ∧ isCommentLine level stop.bump = true then
        commentLines level (line :: before) stop.bump
      else .ok ((line :: before).reverse, stop) := by
  rw [commentLines_eq_bind, h]
  rfl

/-- The line under the cursor ends, and the next one belongs to no comment of the level. -/
def CommentEnds (level : CommentLevel) (c : Cursor) : Prop :=
  AtLineEnd c ∧ isCommentLine level c.bump = false

/-- Marked lines are read one after the other. -/
theorem commentLines_of_passes {level : CommentLevel} {lines before : List (List Char)}
    (hne : lines ≠ []) (hlines : ∀ line ∈ lines, '\n' ∉ line) {c stop : Cursor}
    (hp : c.Passes (joinLines (lines.map (markedLine level))) stop)
    (hend : CommentEnds level stop) :
    commentLines level before c = .ok (before.reverse ++ lines, stop) := by
  induction lines generalizing before c with
  | nil => exact absurd rfl hne
  | cons line lines ih =>
    have hline := hlines line List.mem_cons_self
    cases lines with
    | nil =>
      have hjoin : joinLines ([line].map (markedLine level)) = markedLine level line := by
        simp [joinLines, List.intercalate]
      rw [hjoin] at hp
      rw [commentLines_eq (commentLine_of_passes hp hline hend.1), if_neg (by simp [hend.2])]
      simp
    | cons next lines =>
      rw [List.map_cons, List.map_cons, joinLines_cons_cons, ← List.map_cons] at hp
      obtain ⟨feed, hmarked, hp⟩ := hp.split
      obtain ⟨start, hfeed, hrest⟩ := hp.uncons
      have hread := commentLine_of_passes hmarked hline (.inr hfeed.current_cons)
      -- the next line is marked, too, so the comment goes on
      have hnext : isCommentLine level feed.bump = true := by
        obtain ⟨last, hmarked, hlast⟩ := first_of_joined hrest hend.1
        rw [Cursor.bump_eq hfeed]
        exact isCommentLine_of_passes hmarked hlast
      rw [commentLines_eq hread, if_pos ⟨hfeed.current_cons, hnext⟩, Cursor.bump_eq hfeed,
        ih (by simp) (fun x hx => hlines x (List.mem_cons_of_mem _ hx)) hrest]
      simp

/-- Every comment is read again where no further line of its level follows. -/
theorem comment_of_passes {found : Comment} {c stop : Cursor} (hp : c.Passes found.body stop)
    (hend : CommentEnds found.level stop) : Grammar.comment c = .ok (found, stop) := by
  have hne := splitLines_ne_nil found.content.toList
  have hlines : ∀ line ∈ splitLines found.content.toList, '\n' ∉ line :=
    fun line hline => (splitLines_line hline).1
  have hlevel : commentLevel c = .ok found.level := by
    obtain ⟨line, lines, hcons⟩ := List.exists_cons_of_ne_nil hne
    rw [Comment.body, hcons] at hp
    obtain ⟨last, hmarked, hlast⟩ := first_of_joined hp hend.1
    exact commentLevel_of_passes hmarked hlast
  rw [Grammar.comment, hlevel]
  show (commentLines found.level [] c >>= _) = _
  rw [commentLines_of_passes hne hlines hp hend, List.reverse_nil, List.nil_append]
  show Except.ok (_, stop) = _
  rw [joinLines_splitLines, String.ofList_toList]

/-! ## Which lines make a comment -/

/-- Nothing but a hash starts a comment line. -/
theorem isCommentLine_eq_false {level : CommentLevel} {c : Cursor} (h : c.current ≠ some '#') :
    isCommentLine level c = false := by
  have hlead : c.leading (· == '#') = [] := by
    refine takeWhile_of_stops fun ch hch => ?_
    rw [beq_eq_false_iff_ne]
    rintro rfl
    exact h hch
  rw [isCommentLine, hlead]
  cases level <;> rfl

/-- Passing as many marks as there are passes all of them. -/
theorem advance_hashes {level : CommentLevel} {c : Cursor}
    (h : (c.leading (· == '#')).length = level.hashes) :
    c.advance level.hashes = c.skipWhile (· == '#') := by
  rw [← h]
  exact Cursor.advance_eq (Cursor.passes_skipWhile (· == '#') c)

/-- The hashes of a level fit into the text they are found in. -/
theorem hashes_le_length {level : CommentLevel} {c : Cursor}
    (h : (c.leading (· == '#')).length = level.hashes) : level.hashes ≤ c.rest.length := by
  rw [← h]
  exact (List.takeWhile_prefix _).length_le

/-- A line belongs to a comment of the level if it is one of its lines. -/
theorem commentLine_of_isCommentLine {level : CommentLevel} {c : Cursor}
    (h : isCommentLine level c = true) :
    ∃ line stop, commentLine level c = .ok (line, stop) ∧ AtLineEnd stop := by
  rw [isCommentLine, Bool.and_eq_true, beq_iff_eq] at h
  obtain ⟨hlength, hmark⟩ := h
  rw [commentLine, advance_hashes hlength]
  cases hc : (c.skipWhile (· == '#')).current with
  | none => exact ⟨_, _, rfl, .inl hc⟩
  | some ch =>
    rw [hc] at hmark
    rcases Bool.or_eq_true _ _ ▸ hmark with hspace | hfeed
    · obtain rfl := eq_of_beq hspace
      refine ⟨_, _, rfl, ?_⟩
      have hstop := stops_dropWhile (· != '\n') (c.skipWhile (· == '#')).bump.rest
      cases hline : ((c.skipWhile (· == '#')).bump.skipWhile (· != '\n')).current with
      | none => exact .inl hline
      | some x =>
        have hfeed := hstop x hline
        have hx : x = '\n' := by simpa using hfeed
        exact .inr (hx ▸ hline)
    · obtain rfl := eq_of_beq hfeed
      exact ⟨_, _, rfl, .inr hc⟩

/-- From a comment line on, the lines of a comment are read up to a line end. -/
theorem commentLines_of_isCommentLine {level : CommentLevel} (before : List (List Char))
    {c : Cursor} (h : isCommentLine level c = true) :
    ∃ lines stop, commentLines level before c = .ok (lines, stop) ∧ AtLineEnd stop := by
  fun_induction commentLines level before c with
  | case1 before c failure hl =>
    obtain ⟨line, stop, hread, -⟩ := commentLine_of_isCommentLine h
    cases hl.symm.trans hread
  | case2 before c next last hl hnext ih => exact ih hnext.2
  | case3 before c next last hl hnext =>
    obtain ⟨line, stop, hread, hstop⟩ := commentLine_of_isCommentLine h
    obtain ⟨rfl, rfl⟩ := Prod.mk.inj (Except.ok.inj (hl.symm.trans hread))
    exact ⟨_, _, rfl, hstop⟩

/-- From a line of a comment on, a comment is read up to a line end. -/
theorem comment_of_isCommentLine {level : CommentLevel} {c : Cursor}
    (h : isCommentLine level c = true) :
    c.current = some '#' ∧
      ∃ found stop, Grammar.comment c = .ok (found, stop) ∧ AtLineEnd stop := by
  refine ⟨Classical.byContradiction fun hc => ?_, ?_⟩
  · rw [isCommentLine_eq_false hc] at h
    cases h
  · obtain ⟨lines, stop, hlines, hstop⟩ := commentLines_of_isCommentLine [] h
    have hlevel : commentLevel c = .ok level := by
      rw [isCommentLine, Bool.and_eq_true, beq_iff_eq] at h
      rw [commentLevel, h.1]
      cases level <;> rfl
    refine ⟨⟨level, String.ofList (joinLines lines)⟩, stop, ?_, hstop⟩
    rw [Grammar.comment, hlevel]
    show (commentLines level [] c >>= _) = _
    rw [hlines]
    rfl

/-- The level of a comment is told by its marks. -/
theorem hashes_of_commentLevel {level : CommentLevel} {c : Cursor}
    (h : commentLevel c = .ok level) : (c.leading (· == '#')).length = level.hashes := by
  rw [commentLevel] at h
  split at h
  case h_4 => exact absurd h fail_ne_ok
  all_goals
    rename_i hlength
    obtain rfl := Except.ok.inj h
    exact hlength

/-- Where a comment is read stands a line of one. -/
theorem isCommentLine_of_comment {c stop : Cursor} {found : Comment}
    (h : Grammar.comment c = .ok (found, stop)) : ∃ level, isCommentLine level c = true := by
  obtain ⟨level, hlevel, h⟩ := bind_eq_ok.1 h
  obtain ⟨⟨lines, last⟩, hlines, -⟩ := bind_eq_ok.1 h
  have hlength := hashes_of_commentLevel hlevel
  refine ⟨level, ?_⟩
  rw [isCommentLine, hlength, beq_self_eq_true, Bool.true_and]
  -- the first line was read, so behind its marks there is what a line of a comment has there
  rw [commentLines] at hlines
  split at hlines
  · cases hlines
  · rename_i line mark hline
    rw [commentLine, advance_hashes hlength] at hline
    split at hline
    case h_1 hc => rw [hc]
    case h_2 hc | h_3 hc => simp [hc]
    case h_4 | h_5 => exact absurd hline fail_ne_ok

/-! ## What was read -/

/-- A comment line holds characters of the text only. -/
theorem commentLine_ok {level : CommentLevel} {line : List Char} {c stop : Cursor}
    (h : commentLine level c = .ok (line, stop)) : ∀ ch ∈ line, ch ∈ c.rest := by
  simp only [commentLine] at h
  split at h
  case h_1 | h_2 =>
    obtain ⟨rfl, -⟩ := Prod.mk.inj (Except.ok.inj h)
    intro ch hch
    cases hch
  case h_3 hspace =>
    obtain ⟨rfl, -⟩ := Prod.mk.inj (Except.ok.inj h)
    intro ch hch
    have hp := (Cursor.passes_advance level.hashes c).append ((Cursor.passes_bump hspace).append
      (Cursor.passes_skipWhile (· != '\n') _))
    rw [hp.1]
    simp [hch]
  case h_4 | h_5 => exact absurd h fail_ne_ok

/-- What was read as the lines of a comment holds no carriage returns. -/
theorem commentLines_ok {level : CommentLevel} {before lines : List (List Char)} {c stop : Cursor}
    (h : commentLines level before c = .ok (lines, stop)) (hclean : '\r' ∉ c.rest)
    (hbefore : ∀ line ∈ before, '\r' ∉ line) : ∀ line ∈ lines, '\r' ∉ line := by
  have hmore : ∀ {before : List (List Char)} {c stop : Cursor} {line : List Char},
      commentLine level c = .ok (line, stop) → '\r' ∉ c.rest →
        (∀ line ∈ before, '\r' ∉ line) → ∀ x ∈ line :: before, '\r' ∉ x := by
    intro before c stop line hl hclean hbefore x hx
    rcases List.mem_cons.1 hx with rfl | hx
    · exact fun hmem => hclean (commentLine_ok hl _ hmem)
    · exact hbefore x hx
  fun_induction commentLines level before c with
  | case1 => cases h
  | case2 before c line last hl _ ih =>
    have hle := Cursor.le_trans (commentLine_le hl) (Cursor.le_bump last)
    have hrest : '\r' ∉ last.bump.rest := by
      obtain ⟨text, hrest, -⟩ := hle
      rw [hrest] at hclean
      exact fun hmem => hclean (List.mem_append_right _ hmem)
    exact ih h hrest (hmore hl hclean hbefore)
  | case3 before c line last hl =>
    obtain ⟨rfl, -⟩ := Prod.mk.inj (Except.ok.inj h)
    exact fun x hx => hmore hl hclean hbefore x (List.mem_reverse.1 hx)

/-- A comment read from a text without carriage returns holds none. -/
theorem comment_ok {found : Comment} {c stop : Cursor}
    (h : Grammar.comment c = .ok (found, stop)) (hclean : '\r' ∉ c.rest) :
    '\r' ∉ found.content.toList := by
  obtain ⟨level, -, h⟩ := bind_eq_ok.1 h
  obtain ⟨⟨lines, last⟩, hlines, h⟩ := bind_eq_ok.1 h
  obtain ⟨rfl, -⟩ := Prod.mk.inj (Except.ok.inj h)
  rw [String.toList_ofList]
  exact not_mem_joinLines (by decide) (commentLines_ok hlines hclean nofun)

end Grammar

end Fluent
