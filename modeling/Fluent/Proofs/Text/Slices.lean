/-
# Pieces between two offsets

Offsets count bytes, texts are made of characters.  Where an offset is the length of what comes
before, cutting a text by bytes cuts it between two characters.

* `sliceBytes_append` : a piece is cut out by the lengths of what lies before it and up to its end;
* `dropBytes_pos` : a cursor of a text is told by its position;
* `Cursor.le_of_pos_le` : of two cursors of a text, the one with the smaller position comes first;
* `Cursor.Passes.sliceBytes_eq` : what lies between two cursors is what reading passes.
-/
import Fluent.Proofs.Text.Boundary
import Fluent.Proofs.Text.Passage

namespace Fluent

/-- Only the empty text takes no bytes. -/
theorem utf8Length_eq_zero {text : List Char} : utf8Length text = 0 ↔ text = [] := by
  refine ⟨fun h => Classical.byContradiction fun hne => ?_, fun h => by rw [h]; rfl⟩
  have := utf8Length_pos hne
  omega

/-! ## Cutting a text -/

/-- Dropping the bytes of a text leaves what stands behind it. -/
theorem dropBytes_append (s t : List Char) : dropBytes (utf8Length s) (s ++ t) = t := by
  induction s with
  | nil =>
    cases t with
    | nil => rfl
    | cons ch t => rfl
  | cons ch s ih =>
    obtain ⟨n, hn⟩ := Nat.exists_eq_add_of_lt (utf8Length_pos (List.cons_ne_nil ch s))
    rw [Nat.zero_add] at hn
    rw [hn, List.cons_append, dropBytes, ← hn, utf8Length_cons, Nat.add_sub_cancel_left, ih]

/-- Taking the bytes of a text leaves out what stands behind it. -/
theorem takeBytes_append (s t : List Char) : takeBytes (utf8Length s) (s ++ t) = s := by
  rw [takeBytes, dropBytes_append]
  simp

/-- What lies between the bytes before a segment and those up to its end is the segment. -/
theorem sliceBytes_append (before seg after : List Char) :
    sliceBytes (utf8Length before) (utf8Length (before ++ seg)) (before ++ (seg ++ after)) =
      seg := by
  rw [sliceBytes, dropBytes_append, utf8Length_append, Nat.add_sub_cancel_left, takeBytes_append]

/-- Dropping bytes leaves no more than the others: a character that is cut is dropped whole. -/
theorem utf8Length_dropBytes_le (n : Nat) (text : List Char) :
    utf8Length (dropBytes n text) ≤ utf8Length text - n := by
  fun_induction dropBytes n text with
  | case1 text => exact Nat.le_refl _
  | case2 => exact Nat.zero_le _
  | case3 n ch text ih =>
    rw [utf8Length_cons]
    omega

/-- Dropping all bytes leaves nothing. -/
theorem dropBytes_eq_nil {n : Nat} {text : List Char} (h : utf8Length text ≤ n) :
    dropBytes n text = [] := by
  have hlength := utf8Length_dropBytes_le n text
  exact utf8Length_eq_zero.1 (by omega)

/-- The bytes up to the end of a text are all that are left. -/
theorem sliceBytes_utf8Length (start : Nat) (text : List Char) :
    sliceBytes start (utf8Length text) text = dropBytes start text := by
  rw [sliceBytes, takeBytes, dropBytes_eq_nil (utf8Length_dropBytes_le start text)]
  simp

/-! ## Cursors of a text -/

/-- A cursor of a text is told by its position. -/
theorem dropBytes_pos {text : List Char} {c : Cursor} (h : Cursor.ofText text ≤ c) :
    dropBytes c.pos text = c.rest ∧ c.pos + utf8Length c.rest = utf8Length text := by
  obtain ⟨front, htext, hpos⟩ := exists_front h
  rw [hpos, htext, dropBytes_append, utf8Length_append]
  exact ⟨rfl, rfl⟩

namespace Cursor

variable {text : List Char} {a b c : Cursor}

/-- Where no character is left, the text ends. -/
theorem pos_of_current_eq_none (hc : ofText text ≤ c) (h : c.current = none) :
    c.pos = utf8Length text := by
  have hlength := (dropBytes_pos hc).2
  rw [List.head?_eq_none_iff.1 h] at hlength
  exact hlength

/-- Reading leads from one place of a text to every place behind it. -/
theorem le_of_pos_le (ha : ofText text ≤ a) (hb : ofText text ≤ b) (h : a.pos ≤ b.pos) :
    a ≤ b := by
  obtain ⟨front, htext, hpos⟩ := exists_front ha
  obtain ⟨front', htext', hpos'⟩ := exists_front hb
  -- one of the two fronts goes on with the other
  rcases List.append_eq_append_iff.1 (htext.symm.trans htext') with
    ⟨more, hfront, hrest⟩ | ⟨more, hfront, hrest⟩
  · exact ⟨more, hrest, by rw [hpos', hpos, hfront, utf8Length_append]⟩
  · have hmore : more = [] := by
      rw [hpos, hpos', hfront, utf8Length_append] at h
      exact utf8Length_eq_zero.1 (by omega)
    subst hmore
    refine ⟨[], hrest.symm, ?_⟩
    rw [hpos', hpos, hfront, List.append_nil, utf8Length_nil, Nat.add_zero]

/-- What lies between the positions of two cursors is what reading passes from one to the other. -/
theorem Passes.sliceBytes_eq {s : List Char} (ha : ofText text ≤ a) (h : a.Passes s b) :
    sliceBytes a.pos b.pos text = s := by
  obtain ⟨front, htext, hpos⟩ := exists_front ha
  rw [hpos, h.pos_eq hpos, htext, h.1, sliceBytes_append]

end Cursor

end Fluent
