/-
# Texts within longer texts

A text may stand somewhere in a longer one: bytes lie before it and other characters follow it.  A
cursor of the text is then a cursor of the longer one, further on by the bytes before.

What follows is nothing, or an empty line and the start of an entry.  Steps within a line do not
tell the two apart, so they lead to the same places.

* `Placement.cursor_bump`, `Placement.Apart.skipWhile` : steps within a line;
* `Placement.Apart.skipBlank` : blanks are skipped to the same place, or up to what follows the
  text.
-/
import Fluent.Proofs.Text.Passage
import Fluent.Resource.Items

namespace Fluent

/-- Where a text stands in a longer one: how many bytes lie before it, and what follows it. -/
structure Placement where
  ahead : Nat
  behind : List Char

namespace Placement

/-- A cursor of the text, in the longer text. -/
def cursor (p : Placement) (c : Cursor) : Cursor :=
  ⟨c.rest ++ p.behind, c.pos + p.ahead⟩

/-- Nothing follows the text, or an empty line and the start of an entry. -/
inductive Apart : Placement → Prop
  | nothing (ahead : Nat) : Apart ⟨ahead, []⟩
  | entry (ahead : Nat) {ch : Char} (text : List Char) (hch : startsEntry ch = true) :
      Apart ⟨ahead, '\n' :: '\n' :: ch :: text⟩

variable {p : Placement} {c stop : Cursor} {ch : Char}

/-! ## Steps that stay in the text -/

/-- Where the text has not ended, what stands at the cursor is told by the text. -/
theorem current_of_some (hc : c.current = some ch) : (p.cursor c).current = some ch := by
  obtain ⟨text, hrest⟩ := List.head?_eq_some_iff.1 hc
  rw [cursor, Cursor.current, hrest]
  rfl

/-- What is passed in a text is passed where it stands in a longer one. -/
theorem cursor_passes {text : List Char} (hp : c.Passes text stop) :
    (p.cursor c).Passes text (p.cursor stop) := by
  refine ⟨?_, ?_⟩
  · show c.rest ++ p.behind = text ++ (stop.rest ++ p.behind)
    rw [hp.1, List.append_assoc]
  · show stop.pos + p.ahead = c.pos + p.ahead + utf8Length text
    rw [hp.2]
    omega

/-- Reading on by one character leads to the placed cursor. -/
theorem cursor_bump (hc : c.current = some ch) : (p.cursor c).bump = p.cursor c.bump :=
  Cursor.bump_eq (cursor_passes (Cursor.passes_bump hc))

/-- Ahead of a character stands what follows it. -/
theorem peek_eq (hc : c.current = some ch) :
    c.peek 1 = c.bump.current ∧ (p.cursor c).peek 1 = (p.cursor c.bump).current := by
  have hpeek : ∀ {d : Cursor}, d.current = some ch → d.peek 1 = d.bump.current := by
    intro d hd
    rw [Cursor.peek, (Cursor.passes_bump hd).1, Cursor.current, List.head?_eq_getElem?]
    rfl
  rw [hpeek hc, hpeek (current_of_some hc), cursor_bump hc]
  exact ⟨rfl, rfl⟩

/-- Advancing within the text leads to the placed cursor. -/
theorem cursor_advance {n : Nat} (hn : n ≤ c.rest.length) :
    (p.cursor c).advance n = p.cursor (c.advance n) := by
  have hp := cursor_passes (p := p) (Cursor.passes_advance n c)
  have hlength : (c.rest.take n).length = n := List.length_take_of_le hn
  rw [← Cursor.advance_eq hp, hlength]

/-- The text between two cursors is that between the placed ones. -/
theorem cursor_textTo (hle : c ≤ stop) : (p.cursor c).textTo (p.cursor stop) = c.textTo stop := by
  obtain ⟨text, hp⟩ := hle
  rw [Cursor.textTo_eq hp.1, Cursor.textTo_eq (cursor_passes (p := p) hp).1]

/-- The distance of two cursors is that of the placed ones. -/
theorem cursor_pos_sub (c d : Cursor) :
    (p.cursor c).pos - (p.cursor d).pos = c.pos - d.pos := by
  show c.pos + p.ahead - (d.pos + p.ahead) = c.pos - d.pos
  omega

/-! ## Steps up to what follows -/

/-- Where nothing but blanks is left, no other character stands. -/
theorem current_ne_of_skipBlank (hc : c.skipBlank.rest = []) (hch : isBlank ch = false) :
    c.current ≠ some ch := by
  intro heq
  have hskip : c.skipBlank = c := Cursor.skipWhile_of_stops (Cursor.stops_of_current heq hch)
  rw [hskip] at hc
  rw [Cursor.current, hc] at heq
  cases heq

/-- What follows the text does not go on with a character of a line. -/
theorem Apart.stops (h : p.Apart) {test : Char → Bool} (hfeed : test '\n' = false) :
    Stops test p.behind := by
  cases h with
  | nothing => exact stops_nil test
  | entry => exact stops_cons.2 hfeed

/-- Where the text stops, so does the longer one. -/
theorem Apart.stops_append (h : p.Apart) {test : Char → Bool} (hfeed : test '\n' = false)
    {text : List Char} (ht : Stops test text) : Stops test (text ++ p.behind) := by
  cases text with
  | nil => exact h.stops hfeed
  | cons ch text => exact stops_cons.2 (stops_cons.1 ht)

namespace Apart

variable (h : p.Apart)
include h

/-- Where the text has ended, nothing stands at the cursor, or a line ends there. -/
theorem current_of_none (hc : c.current = none) :
    p.behind = [] ∧ (p.cursor c).current = none ∨
      p.behind ≠ [] ∧ (p.cursor c).current = some '\n' := by
  have hrest : c.rest = [] := by simpa [Cursor.current] using hc
  cases h with
  | nothing => exact .inl ⟨rfl, by rw [cursor, Cursor.current, hrest]; rfl⟩
  | entry => exact .inr ⟨List.cons_ne_nil _ _, by rw [cursor, Cursor.current, hrest]; rfl⟩

/-- A test that refuses line feeds says the same of the next character: a line feed follows the
text. -/
theorem current_any {test : Char → Bool} (hfeed : test '\n' = false) :
    (p.cursor c).current.any test = c.current.any test := by
  cases hc : c.current with
  | some x => rw [current_of_some hc]
  | none =>
    rcases h.current_of_none hc with ⟨-, hnone⟩ | ⟨-, hline⟩
    · rw [hnone]
    · rw [hline]
      exact hfeed

/-- But for line feeds, the same characters stand at the cursor. -/
theorem current_eq_some_iff (hch : ch ≠ '\n') :
    (p.cursor c).current = some ch ↔ c.current = some ch := by
  have hany : (p.cursor c).current.any (· == ch) = c.current.any (· == ch) :=
    h.current_any (beq_eq_false_iff_ne.2 hch.symm)
  rw [Bool.eq_iff_iff, Option.any_eq_true, Option.any_eq_true] at hany
  simpa using hany

/-- The run of characters that pass such a test is the same. -/
theorem leading {test : Char → Bool} (hfeed : test '\n' = false) :
    (p.cursor c).leading test = c.leading test :=
  Cursor.leading_eq (cursor_passes (Cursor.passes_skipWhile test c)) (Cursor.all_leading test c)
    (h.stops_append hfeed (stops_dropWhile test c.rest))

/-- Skipping such a run leads to the placed cursor. -/
theorem skipWhile {test : Char → Bool} (hfeed : test '\n' = false) :
    (p.cursor c).skipWhile test = p.cursor (c.skipWhile test) :=
  Cursor.skipWhile_eq_iff.2 ⟨_, cursor_passes (Cursor.passes_skipWhile test c),
    Cursor.all_leading test c, h.stops_append hfeed (stops_dropWhile test c.rest)⟩

/-- Skipping spaces leads to the placed cursor. -/
theorem skipBlankInline : (p.cursor c).skipBlankInline = p.cursor c.skipBlankInline :=
  h.skipWhile (by decide)

/-- Blanks are skipped to the same place; or nothing but blanks was left, and they are skipped up to
the entry that follows. -/
theorem skipBlank :
    (p.cursor c).skipBlank = p.cursor c.skipBlank ∨
      p.behind ≠ [] ∧ c.skipBlank.rest = [] ∧
        ∃ ch, (p.cursor c).skipBlank.current = some ch ∧ startsEntry ch = true := by
  have hp := cursor_passes (p := p) (Cursor.passes_skipWhile isBlank c)
  have hblank : Blank (c.leading isBlank) := Cursor.all_leading isBlank c
  cases hrest : c.skipBlank.rest with
  | cons ch text =>
    have hstop : Stops isBlank c.skipBlank.rest := stops_dropWhile isBlank c.rest
    refine .inl (Cursor.skipWhile_eq_iff.2 ⟨_, hp, hblank, ?_⟩)
    rw [hrest] at hstop
    show Stops isBlank (c.skipBlank.rest ++ p.behind)
    rw [hrest]
    exact stops_cons.2 (stops_cons.1 hstop)
  | nil =>
    cases h with
    | nothing =>
      refine .inl (Cursor.skipWhile_eq_iff.2 ⟨_, hp, hblank, ?_⟩)
      show Stops isBlank (c.skipBlank.rest ++ [])
      rw [hrest]
      exact stops_nil _
    | @entry ahead ch text hch =>
      -- the blanks of the text and the empty line are skipped together
      have hfeeds : Cursor.Passes _ ['\n', '\n'] ⟨ch :: text, _⟩ := Cursor.passes_of_rest
        (c := Placement.cursor ⟨ahead, '\n' :: '\n' :: ch :: text⟩ c.skipBlank)
        (by rw [cursor, hrest]; rfl)
      have hstops : Stops isBlank (ch :: text) := by
        rw [stops_cons, isBlank, Bool.or_eq_false_iff]
        refine ⟨beq_eq_false_iff_ne.2 ?_, beq_eq_false_iff_ne.2 ?_⟩ <;>
          · rintro rfl
            exact absurd hch (by decide)
      have hskip := Cursor.skipWhile_eq_iff.2 ⟨_, hp.append hfeeds,
        hblank.append (by simp [Blank, isBlank]), hstops⟩
      exact .inr ⟨List.cons_ne_nil _ _, rfl, ch, congrArg Cursor.current hskip, hch⟩

/-- Behind blanks the same characters stand, but for those that start entries. -/
theorem skipBlank_current_iff (hch : startsEntry ch = false) (hfeed : ch ≠ '\n') :
    (p.cursor c).skipBlank.current = some ch ↔ c.skipBlank.current = some ch := by
  rcases h.skipBlank (c := c) with heq | ⟨-, hrest, x, hx, hstart⟩
  · rw [heq, h.current_eq_some_iff hfeed]
  · refine iff_of_false (fun heq => ?_) (fun heq => ?_)
    · obtain rfl := Option.some.inj (hx.symm.trans heq)
      rw [hch] at hstart
      cases hstart
    · rw [Cursor.current, hrest] at heq
      cases heq

/-- Where something is left behind the blanks, they are skipped to the same place. -/
theorem skipBlank_of_current (hc : c.skipBlank.current = some ch) :
    (p.cursor c).skipBlank = p.cursor c.skipBlank := by
  refine h.skipBlank.resolve_right fun hend => ?_
  rw [Cursor.current, hend.2.1] at hc
  cases hc

end Apart

end Placement

end Fluent
