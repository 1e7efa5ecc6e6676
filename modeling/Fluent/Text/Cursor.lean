/-
# Cursors

A cursor is a place in a text: the characters still to be read and the number of bytes already
read.  Reading never changes a cursor; every step answers a new one.

* `a ≤ b` says that `b` is reached from `a` by reading on, and `a < b` that at least one
  character lies between them;
* every step (`bump`, `advance`, `skipWhile`, ...) only moves forward, so a loop that steps
  ends after at most `rest.length` rounds (`length_lt_of_lt`);
* `textTo` gives back the characters between two such cursors (`textTo_eq`).
-/

namespace Fluent

/-- The number of bytes that a text takes in UTF-8. -/
def utf8Length (text : List Char) : Nat :=
  text.foldr (fun ch size => ch.utf8Size + size) 0

/-- The empty text takes no bytes. -/
@[simp] theorem utf8Length_nil : utf8Length [] = 0 := rfl

/-- The first character of a text takes its own bytes in front of the others. -/
@[simp] theorem utf8Length_cons (ch : Char) (text : List Char) :
    utf8Length (ch :: text) = ch.utf8Size + utf8Length text := rfl

/-- The bytes of two texts in a row add up. -/
@[simp] theorem utf8Length_append (s t : List Char) :
    utf8Length (s ++ t) = utf8Length s + utf8Length t := by
  induction s with
  | nil => simp
  | cons ch s ih => simp [ih, Nat.add_assoc]

/-- A text with a character in it takes at least one byte. -/
theorem utf8Length_pos {text : List Char} (h : text ≠ []) : 0 < utf8Length text := by
  cases text with
  | nil => exact absurd rfl h
  | cons ch text =>
    rw [utf8Length_cons]
    exact Nat.lt_of_lt_of_le ch.utf8Size_pos (Nat.le_add_right ..)

/-- A text takes at least as many bytes as it has characters. -/
theorem length_le_utf8Length (text : List Char) : text.length ≤ utf8Length text := by
  induction text with
  | nil => exact Nat.le_refl 0
  | cons ch text ih =>
    have hch := ch.utf8Size_pos
    rw [List.length_cons, utf8Length_cons]
    omega

/-- Bytes and characters come to the same number where each character takes one byte. -/
theorem utf8Length_eq_length_iff {text : List Char} :
    utf8Length text = text.length ↔ ∀ ch ∈ text, ch.utf8Size = 1 := by
  induction text with
  | nil => simp
  | cons ch text ih =>
    have hch := ch.utf8Size_pos
    have htext := length_le_utf8Length text
    rw [List.forall_mem_cons, ← ih, List.length_cons, utf8Length_cons]
    omega

/-- The part of a text that follows its first `n` bytes. -/
def dropBytes : Nat → List Char → List Char
  | 0, text => text
  | _, [] => []
  | n + 1, ch :: text => dropBytes (n + 1 - ch.utf8Size) text

/-- The part of a text that fills its first `n` bytes. -/
def takeBytes (n : Nat) (text : List Char) : List Char :=
  text.take (text.length - (dropBytes n text).length)

/-- The part of a text between two byte offsets. -/
def sliceBytes (start stop : Nat) (text : List Char) : List Char :=
  takeBytes (stop - start) (dropBytes start text)

/-- A place in a text: what is left to read, and how many bytes come before it. -/
structure Cursor where
  rest : List Char
  pos : Nat
deriving DecidableEq, Inhabited

namespace Cursor

/-- The cursor at the start of a text. -/
def ofText (text : List Char) : Cursor :=
  ⟨text, 0⟩

/-- The character under the cursor, if the text goes on. -/
def current (c : Cursor) : Option Char :=
  c.rest.head?

/-- The character `n` places ahead of the one under the cursor. -/
def peek (n : Nat) (c : Cursor) : Option Char :=
  c.rest[n]?

/-- Nothing is left to read. -/
def atEnd (c : Cursor) : Bool :=
  c.rest.isEmpty

/-- The cursor behind the next character, or the same cursor at the end of the text. -/
def bump : Cursor → Cursor
  | ⟨[], pos⟩ => ⟨[], pos⟩
  | ⟨ch :: rest, pos⟩ => ⟨rest, pos + ch.utf8Size⟩

/-- The cursor `n` characters on, or at the end of the text if fewer are left. -/
def advance (n : Nat) (c : Cursor) : Cursor :=
  ⟨c.rest.drop n, c.pos + utf8Length (c.rest.take n)⟩

/-- The cursor at the first character that fails the test. -/
def skipWhile (test : Char → Bool) (c : Cursor) : Cursor :=
  ⟨c.rest.dropWhile test, c.pos + utf8Length (c.rest.takeWhile test)⟩

/-- The characters up to the first one that fails the test. -/
def leading (test : Char → Bool) (c : Cursor) : List Char :=
  c.rest.takeWhile test

/-- The cursor at the first character that is not a space. -/
def skipBlankInline (c : Cursor) : Cursor :=
  c.skipWhile (· == ' ')

/-- The cursor at the first character that is neither a space nor a line feed. -/
def skipBlank (c : Cursor) : Cursor :=
  c.skipWhile fun ch => ch == ' ' || ch == '\n'

/-- The rest of the text begins with the given characters. -/
def startsWith (lead : List Char) (c : Cursor) : Bool :=
  lead.isPrefixOf c.rest

/-- The characters from this cursor to a later one. -/
def textTo (start stop : Cursor) : List Char :=
  start.rest.take (start.rest.length - stop.rest.length)

/-! ## The order of cursors in one text -/

/-- `a ≤ b`: reading on from `a` leads to `b`. -/
instance : LE Cursor where
  le a b := ∃ text, a.rest = text ++ b.rest ∧ b.pos = a.pos + utf8Length text

/-- `a < b`: reading on from `a` leads to `b`, past at least one character. -/
instance : LT Cursor where
  lt a b := ∃ text, text ≠ [] ∧ a.rest = text ++ b.rest ∧ b.pos = a.pos + utf8Length text

theorem le_refl (c : Cursor) : c ≤ c :=
  ⟨[], rfl, rfl⟩

theorem le_of_lt {a b : Cursor} : a < b → a ≤ b
  | ⟨text, _, hrest, hpos⟩ => ⟨text, hrest, hpos⟩

theorem le_trans {a b c : Cursor} : a ≤ b → b ≤ c → a ≤ c
  | ⟨s, hs, ps⟩, ⟨t, ht, pt⟩ => ⟨s ++ t, by simp [hs, ht], by simp [pt, ps]; omega⟩

theorem lt_of_lt_of_le {a b c : Cursor} : a < b → b ≤ c → a < c
  | ⟨s, hne, hs, ps⟩, ⟨t, ht, pt⟩ =>
    ⟨s ++ t, by simp [hne], by simp [hs, ht], by simp [pt, ps]; omega⟩

theorem lt_of_le_of_lt {a b c : Cursor} : a ≤ b → b < c → a < c
  | ⟨s, hs, ps⟩, ⟨t, hne, ht, pt⟩ =>
    ⟨s ++ t, by simp [hne], by simp [hs, ht], by simp [pt, ps]; omega⟩

theorem lt_trans {a b c : Cursor} (hab : a < b) (hbc : b < c) : a < c :=
  lt_of_lt_of_le hab (le_of_lt hbc)

/-- Reading on leaves fewer characters to read. -/
theorem length_lt_of_lt {a b : Cursor} : a < b → b.rest.length < a.rest.length
  | ⟨s, hne, hs, _⟩ => by
    have := List.length_pos_iff.2 hne
    rw [hs, List.length_append]
    omega

/-- The later of two cursors has no more characters left. -/
theorem length_le_of_le {a b : Cursor} : a ≤ b → b.rest.length ≤ a.rest.length
  | ⟨s, hs, _⟩ => by
    rw [hs, List.length_append]
    omega

/-- The later of two cursors stands at no smaller byte position. -/
theorem pos_le_of_le {a b : Cursor} : a ≤ b → a.pos ≤ b.pos
  | ⟨_, _, hp⟩ => by omega

/-- A cursor that has moved on stands at a larger byte position. -/
theorem pos_lt_of_lt {a b : Cursor} : a < b → a.pos < b.pos
  | ⟨_, hne, _, hp⟩ => by
    have := utf8Length_pos hne
    omega

/-! ## Steps only move forward -/

/-- Reading one character never moves back; at the end of the text it stays. -/
theorem le_bump (c : Cursor) : c ≤ c.bump := by
  match c with
  | ⟨[], _⟩ => exact le_refl _
  | ⟨ch :: _, _⟩ => exact ⟨[ch], rfl, by simp [bump]⟩

/-- Where a character stands, `bump` passes it. -/
theorem lt_bump {c : Cursor} {ch : Char} (h : c.current = some ch) : c < c.bump := by
  match c, h with
  | ⟨ch :: _, _⟩, _ => exact ⟨[ch], by simp, rfl, by simp [bump]⟩

theorem le_advance (n : Nat) (c : Cursor) : c ≤ c.advance n :=
  ⟨c.rest.take n, (List.take_append_drop n c.rest).symm, rfl⟩

/-- At the end of the text there is nothing to move over. -/
theorem advance_of_current_none {c : Cursor} (hc : c.current = none) (n : Nat) :
    c.advance n = c := by
  match c, List.head?_eq_none_iff.1 hc with
  | ⟨_, _⟩, rfl => simp [advance]

/-- Advancing moves where something is left to read. -/
theorem lt_advance {n : Nat} {c : Cursor} (hn : 0 < n) (hc : c.rest ≠ []) : c < c.advance n := by
  refine ⟨c.rest.take n, ?_, (List.take_append_drop n c.rest).symm, rfl⟩
  intro h
  rcases List.take_eq_nil_iff.1 h with h | h
  · omega
  · exact hc h

theorem le_skipWhile (test : Char → Bool) (c : Cursor) : c ≤ c.skipWhile test :=
  ⟨c.rest.takeWhile test, List.takeWhile_append_dropWhile.symm, rfl⟩

/-- Where a character stands that passes the test, `skipWhile` passes it. -/
theorem lt_skipWhile {test : Char → Bool} {c : Cursor} {ch : Char}
    (h : c.current = some ch) (ht : test ch = true) : c < c.skipWhile test := by
  match c, h with
  | ⟨_ :: rest, _⟩, rfl =>
    exact ⟨ch :: rest.takeWhile test, by simp, by simp [skipWhile, ht],
      by simp [skipWhile, ht]⟩

/-- Where something can be skipped, `skipWhile` moves. -/
theorem lt_skipWhile_of_leading_ne_nil {test : Char → Bool} {c : Cursor}
    (h : c.leading test ≠ []) : c < c.skipWhile test :=
  ⟨c.leading test, h, List.takeWhile_append_dropWhile.symm, rfl⟩

theorem le_skipBlankInline (c : Cursor) : c ≤ c.skipBlankInline :=
  le_skipWhile _ c

theorem le_skipBlank (c : Cursor) : c ≤ c.skipBlank :=
  le_skipWhile _ c

/-- Between `a` and a later `b` lie exactly the characters that were read. -/
theorem textTo_eq {a b : Cursor} {text : List Char} (h : a.rest = text ++ b.rest) :
    a.textTo b = text := by
  simp [textTo, h]

end Cursor

end Fluent
