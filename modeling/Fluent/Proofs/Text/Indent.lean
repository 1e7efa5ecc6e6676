/-
# Indenting by any width

What is printed inside other things is indented several times, and each time every line moves by one
level.  `indentBy` moves the lines by any number of spaces at once.

* `indentFrom_eq_indentBy` : one level is four spaces;
* `indentBy_indentBy` : indenting twice is indenting once, by the sum;
* `indentBy_append` : a text is indented piece by piece.
-/
import Fluent.Tree.Print

namespace Fluent

/-- Indents every line that is not empty by `n` spaces; the first one only if `atLineStart`
holds. -/
def indentBy (n : Nat) (atLineStart : Bool) : List Char → List Char
  | [] => []
  | ch :: text =>
    if ch = '\n' then ch :: indentBy n true text
    else if atLineStart then List.replicate n ' ' ++ ch :: indentBy n false text
    else ch :: indentBy n false text

/-- Nothing is put before a line feed, so empty lines stay empty. -/
theorem indentBy_feed (n : Nat) (atLineStart : Bool) (text : List Char) :
    indentBy n atLineStart ('\n' :: text) = '\n' :: indentBy n true text := by
  rw [indentBy, if_pos rfl]

/-- Within a line nothing is put before a character. -/
theorem indentBy_cons (n : Nat) {ch : Char} (h : ch ≠ '\n') (text : List Char) :
    indentBy n false (ch :: text) = ch :: indentBy n false text := by
  rw [indentBy, if_neg h, if_neg (by decide)]

/-- A line that is not empty starts with the indentation. -/
theorem indentBy_true_cons (n : Nat) {ch : Char} (h : ch ≠ '\n') (text : List Char) :
    indentBy n true (ch :: text) = List.replicate n ' ' ++ indentBy n false (ch :: text) := by
  rw [indentBy_cons n h, indentBy, if_neg h, if_pos rfl]

/-- Indenting by nothing changes nothing. -/
theorem indentBy_zero (atLineStart : Bool) (text : List Char) :
    indentBy 0 atLineStart text = text := by
  induction text generalizing atLineStart with
  | nil => rfl
  | cons ch text ih =>
    rw [indentBy, ih, ih]
    split
    · rfl
    · split <;> rfl

/-- One level of indentation is four spaces. -/
theorem indentFrom_eq_indentBy (atLineStart : Bool) (text : List Char) :
    indentFrom atLineStart text = indentBy 4 atLineStart text := by
  induction text generalizing atLineStart with
  | nil => rfl
  | cons ch text ih =>
    rw [indentFrom, indentBy, ih, ih]
    rfl

/-! ## Pieces of a text -/

/-- Whether a text ends at the start of a line is settled by its last character. -/
@[simp] theorem endsLine_cons (atLineStart : Bool) (ch : Char) (text : List Char) :
    endsLine atLineStart (ch :: text) = endsLine (ch == '\n') text := by
  cases text with
  | nil => rfl
  | cons next text =>
    simp only [endsLine, List.getLast?_cons_cons]
    cases h : (next :: text).getLast? with
    | none => simp at h
    | some last => rfl

/-- Of two texts in a row the second one goes on where the first one ends. -/
@[simp] theorem endsLine_append (atLineStart : Bool) (s t : List Char) :
    endsLine atLineStart (s ++ t) = endsLine (endsLine atLineStart s) t := by
  induction s generalizing atLineStart with
  | nil => rfl
  | cons ch s ih => rw [List.cons_append, endsLine_cons, endsLine_cons, ih]

/-- A text is indented piece by piece. -/
theorem indentBy_append (n : Nat) (atLineStart : Bool) (s t : List Char) :
    indentBy n atLineStart (s ++ t) =
      indentBy n atLineStart s ++ indentBy n (endsLine atLineStart s) t := by
  induction s generalizing atLineStart with
  | nil => rfl
  | cons ch s ih =>
    rw [List.cons_append, endsLine_cons]
    by_cases hfeed : ch = '\n'
    · subst hfeed
      rw [indentBy_feed, indentBy_feed, ih]
      rfl
    · have hends : (ch == '\n') = false := by simpa using hfeed
      rw [hends]
      cases atLineStart with
      | false => rw [indentBy_cons n hfeed, indentBy_cons n hfeed, ih]; rfl
      | true =>
        rw [indentBy_true_cons n hfeed, indentBy_true_cons n hfeed, indentBy_cons n hfeed,
          indentBy_cons n hfeed, ih, List.append_assoc]
        rfl

/-- Within one line nothing is indented. -/
theorem indentBy_of_not_mem (n : Nat) {text : List Char} (h : '\n' ∉ text) :
    indentBy n false text = text := by
  induction text with
  | nil => rfl
  | cons ch text ih =>
    have hch : ch ≠ '\n' := fun heq => h (heq ▸ List.mem_cons_self)
    rw [indentBy_cons n hch, ih fun hmem => h (List.mem_cons_of_mem _ hmem)]

/-- Behind one line that is not empty no line starts. -/
theorem endsLine_of_not_mem {text : List Char} (h : '\n' ∉ text) : endsLine false text = false := by
  induction text with
  | nil => rfl
  | cons ch text ih =>
    have hch : (ch == '\n') = false := by
      simpa using fun heq : ch = '\n' => h (heq ▸ List.mem_cons_self)
    rw [endsLine_cons, hch]
    exact ih fun hmem => h (List.mem_cons_of_mem _ hmem)

/-- Indenting twice is indenting once. -/
theorem indentBy_indentBy (m n : Nat) (atLineStart : Bool) (text : List Char) :
    indentBy m atLineStart (indentBy n atLineStart text) = indentBy (m + n) atLineStart text := by
  induction text generalizing atLineStart with
  | nil => rfl
  | cons ch text ih =>
    by_cases hfeed : ch = '\n'
    · subst hfeed
      rw [indentBy_feed, indentBy_feed, indentBy_feed, ih]
    · cases atLineStart with
      | false => rw [indentBy_cons n hfeed, indentBy_cons m hfeed, indentBy_cons (m + n) hfeed, ih]
      | true =>
        rw [indentBy_true_cons n hfeed, indentBy_true_cons (m + n) hfeed, indentBy_cons n hfeed,
          indentBy_cons (m + n) hfeed]
        cases n with
        | zero => rw [List.replicate_zero, List.nil_append, indentBy_true_cons m hfeed,
            indentBy_cons m hfeed, ih, Nat.add_zero]
        | succ n =>
          -- the spaces that were put in hold no line feeds, so they are passed by
          have hspaces : indentBy m false (List.replicate n ' ') = List.replicate n ' ' :=
            indentBy_of_not_mem m (by simp)
          have hends : endsLine false (List.replicate n ' ') = false :=
            endsLine_of_not_mem (by simp)
          rw [List.replicate_succ, List.cons_append, indentBy_true_cons m (by decide),
            indentBy_cons m (by decide), indentBy_append, hspaces, hends, indentBy_cons m hfeed, ih,
            ← List.replicate_append_replicate, List.append_assoc]
          rfl

/-- Indenting adds only spaces. -/
theorem mem_indentBy {n : Nat} {atLineStart : Bool} {text : List Char} {ch : Char}
    (h : ch ∈ indentBy n atLineStart text) : ch ∈ text ∨ ch = ' ' := by
  induction text generalizing atLineStart with
  | nil => exact .inl h
  | cons next text ih =>
    have hrest : ∀ {b : Bool}, ch ∈ next :: indentBy n b text → ch ∈ next :: text ∨ ch = ' ' := by
      intro b hmem
      rcases List.mem_cons.1 hmem with rfl | hmem
      · exact .inl List.mem_cons_self
      · exact (ih hmem).imp_left (List.mem_cons_of_mem _)
    rw [indentBy] at h
    split at h
    · exact hrest h
    · split at h
      · rcases List.mem_append.1 h with h | h
        · exact .inr (List.eq_of_mem_replicate h)
        · exact hrest h
      · exact hrest h

end Fluent
