/-
# Boundaries of characters

Places in a text are given by the bytes before them.  An offset that is the place of a cursor lies
between two characters; an offset within a character is the place of none.

* `Boundary` : an offset between two characters, and `not_boundary_of_within` : no other offset;
* `boundary_of_le` : reading leads from one boundary to another.
-/
import Fluent.Text.Cursor

namespace Fluent

/-- The offset lies between two characters of the text, or at one of its ends. -/
def Boundary (text : List Char) (offset : Nat) : Prop :=
  ∃ front back, text = front ++ back ∧ offset = utf8Length front

/-- The end of a text is a boundary. -/
theorem boundary_utf8Length (text : List Char) : Boundary text (utf8Length text) :=
  ⟨text, [], (List.append_nil text).symm, rfl⟩

/-- No boundary lies beyond the end of the text. -/
theorem Boundary.le {text : List Char} {offset : Nat} (h : Boundary text offset) :
    offset ≤ utf8Length text := by
  obtain ⟨front, back, rfl, rfl⟩ := h
  rw [utf8Length_append]
  exact Nat.le_add_right _ _

/-- A cursor of a text stands behind the characters that its position counts. -/
theorem exists_front {text : List Char} {c : Cursor} (h : Cursor.ofText text ≤ c) :
    ∃ front, text = front ++ c.rest ∧ c.pos = utf8Length front := by
  obtain ⟨front, hrest, hpos⟩ := h
  exact ⟨front, hrest, hpos.trans (Nat.zero_add _)⟩

/-- Where reading leads to, a character starts. -/
theorem boundary_of_le {text : List Char} {c : Cursor} (h : Cursor.ofText text ≤ c) :
    Boundary text c.pos := by
  obtain ⟨front, htext, hpos⟩ := exists_front h
  exact ⟨front, c.rest, htext, hpos⟩

/-- Within a character there is no boundary. -/
theorem not_boundary_of_within {front back : List Char} {ch : Char} {n : Nat} (hpos : 0 < n)
    (hlt : n < ch.utf8Size) : ¬Boundary (front ++ ch :: back) (utf8Length front + n) := by
  rintro ⟨front', back', htext, hoffset⟩
  -- one of the two fronts goes on with the other
  rcases List.append_eq_append_iff.1 htext with ⟨more, hfront, hmore⟩ | ⟨more, hfront, -⟩
  · rw [hfront, utf8Length_append] at hoffset
    cases more with
    | nil =>
      rw [utf8Length_nil] at hoffset
      omega
    | cons x more =>
      obtain ⟨rfl, -⟩ := List.cons.inj hmore
      rw [utf8Length_cons] at hoffset
      omega
  · rw [hfront, utf8Length_append] at hoffset
    omega

end Fluent
