/-
# Comments

A comment is one or more lines that start with the same one to three `#`, each followed by the end
of the line or by a space and the line's content.
-/
import Fluent.Text.Lines
import Fluent.Tree.Basic
import Fluent.Grammar.Token

namespace Fluent.Grammar

/-- The level of the comment that starts at the cursor. -/
def commentLevel (c : Cursor) : Reading CommentLevel :=
  match (c.leading (· == '#')).length with
  | 1 => .ok .comment
  | 2 => .ok .group
  | 3 => .ok .resource
  | _ => c.fail .tooManyHashes

/-- The line at the cursor belongs to a comment of the given level. -/
def isCommentLine (level : CommentLevel) (c : Cursor) : Bool :=
  (c.leading (· == '#')).length == level.hashes &&
    match (c.skipWhile (· == '#')).current with
    | none => true
    | some ch => ch == ' ' || ch == '\n'

/-- Reads one line of a comment, up to its end. -/
def commentLine (level : CommentLevel) (c : Cursor) : Reading (List Char × Cursor) :=
  let mark := c.advance level.hashes
  match mark.current with
  | none => .ok ([], mark)
  | some '\n' => .ok ([], mark)
  | some ' ' => .ok (mark.bump.leading (· != '\n'), mark.bump.skipWhile (· != '\n'))
  | some '#' => mark.fail .tooManyHashes
  | some _ => mark.fail (.expectedToken ' ')

/-- A comment of any level opens with a hash. -/
theorem hashes_pos (level : CommentLevel) : 0 < level.hashes := by
  cases level <;> decide

/-- A comment level is told only where characters are left. -/
theorem commentLevel_current {level : CommentLevel} {c : Cursor}
    (h : commentLevel c = .ok level) : c.rest ≠ [] := by
  intro hc
  simp [commentLevel, Cursor.leading, hc] at h

theorem commentLine_le {level : CommentLevel} {c stop : Cursor} {line : List Char}
    (h : commentLine level c = .ok (line, stop)) : c ≤ stop := by
  have hm := Cursor.le_advance level.hashes c
  simp only [commentLine] at h
  split at h
  case h_1 | h_2 =>
    obtain ⟨-, rfl⟩ := Prod.mk.inj (Except.ok.inj h)
    exact hm
  case h_3 =>
    obtain ⟨-, rfl⟩ := Prod.mk.inj (Except.ok.inj h)
    exact Cursor.le_trans hm (Cursor.le_trans (Cursor.le_bump _) (Cursor.le_skipWhile _ _))
  case h_4 | h_5 => exact absurd h fail_ne_ok

/-- Reads a line of a comment and all lines of the same level that follow it directly.  `lines`
holds, in reverse, the lines read before. -/
def commentLines (level : CommentLevel) (lines : List (List Char)) (c : Cursor) :
    Reading (List (List Char) × Cursor) :=
  match _hl : commentLine level c with
  | .error failure => .error failure
  | .ok (line, stop) =>
    if _hn : stop.current = some '\n' ∧ isCommentLine level stop.bump = true then
      commentLines level (line :: lines) stop.bump
    else
      .ok ((line :: lines).reverse, stop)
termination_by c.rest.length
decreasing_by
  exact Cursor.length_lt_of_lt (Cursor.lt_of_le_of_lt (commentLine_le _hl) (Cursor.lt_bump _hn.1))

theorem commentLine_lt {level : CommentLevel} {c stop : Cursor} {line : List Char}
    (hc : c.rest ≠ []) (h : commentLine level c = .ok (line, stop)) : c < stop := by
  have hm := Cursor.lt_advance (hashes_pos level) hc
  simp only [commentLine] at h
  split at h
  case h_1 | h_2 =>
    obtain ⟨-, rfl⟩ := Prod.mk.inj (Except.ok.inj h)
    exact hm
  case h_3 =>
    obtain ⟨-, rfl⟩ := Prod.mk.inj (Except.ok.inj h)
    exact Cursor.lt_of_lt_of_le hm (Cursor.le_trans (Cursor.le_bump _) (Cursor.le_skipWhile _ _))
  case h_4 | h_5 => exact absurd h fail_ne_ok

/-- The lines of a comment never move back. -/
theorem commentLines_le {level : CommentLevel} {before lines : List (List Char)}
    {c stop : Cursor} (h : commentLines level before c = .ok (lines, stop)) : c ≤ stop := by
  fun_induction commentLines level before c with
  | case1 => cases h
  | case2 _ _ _ _ hl _ ih =>
    exact Cursor.le_trans (commentLine_le hl) (Cursor.le_trans (Cursor.le_bump _) (ih h))
  | case3 _ _ _ _ hl =>
    obtain ⟨-, rfl⟩ := Prod.mk.inj (Except.ok.inj h)
    exact commentLine_le hl

/-- Before the end of the text the lines of a comment read at least one character. -/
theorem commentLines_lt {level : CommentLevel} {before lines : List (List Char)}
    {c stop : Cursor} (hc : c.rest ≠ []) (h : commentLines level before c = .ok (lines, stop)) :
    c < stop := by
  unfold commentLines at h
  split at h
  · cases h
  · rename_i line last hl
    have hlt := commentLine_lt hc hl
    split at h
    · exact Cursor.lt_of_lt_of_le hlt (Cursor.le_trans (Cursor.le_bump last) (commentLines_le h))
    · obtain ⟨-, rfl⟩ := Prod.mk.inj (Except.ok.inj h)
      exact hlt

/-- Reads a comment; the cursor behind it stands on the end of its last line. -/
def comment (c : Cursor) : Reading (Comment × Cursor) := do
  let level ← commentLevel c
  let (lines, stop) ← commentLines level [] c
  return (⟨level, String.ofList (joinLines lines)⟩, stop)

/-- A comment reads at least one character: its level is told by a hash that is there. -/
theorem comment_lt {found : Comment} {c stop : Cursor} (h : comment c = .ok (found, stop)) :
    c < stop := by
  obtain ⟨level, hl, h⟩ := bind_eq_ok.1 h
  obtain ⟨⟨lines, last⟩, hs, h⟩ := bind_eq_ok.1 h
  obtain ⟨-, rfl⟩ := Prod.mk.inj (Except.ok.inj h)
  exact commentLines_lt (commentLevel_current hl) hs

end Fluent.Grammar
