/-
# Steps of a cursor

A cursor moves by bumping one character, by advancing over a number of them and by skipping those
that pass a test.  Each step finds its new position in its own way: from the size of a character,
from the positions of the characters that are left, from the length of the text where they run out.
The steps agree: all of them are bumps.

* `charPositions` : the characters of a text with their positions, and `pos_advance`,
  `pos_skipWhile` : the positions at which steps stop;
* `advance_eq_iterate_bump`, `skipWhile_eq_bumpWhile` : steps as bumps;
* `le_after` : sequences of steps lead forward;
* `steps_agree` : all this for every cursor that steps lead to.
-/
import Mathlib.Logic.Function.Iterate
import Fluent.Proofs.Text.Slices

namespace Fluent

/-! ## Positions of characters -/

/-- The characters of a text, each with the number of bytes before it; `start` bytes come before the
text. -/
def charPositions : Nat → List Char → List (Nat × Char)
  | _, [] => []
  | start, ch :: text => (start, ch) :: charPositions (start + ch.utf8Size) text

/-- The position of a character is that of the start, moved on by the bytes before it. -/
theorem getElem?_charPositions (start n : Nat) (text : List Char) :
    (charPositions start text)[n]? =
      text[n]?.map fun ch => (start + utf8Length (text.take n), ch) := by
  induction text generalizing start n with
  | nil => rfl
  | cons ch text ih =>
    cases n with
    | zero => rfl
    | succ n =>
      rw [charPositions, List.getElem?_cons_succ, List.getElem?_cons_succ, List.take_succ_cons,
        utf8Length_cons, ← Nat.add_assoc]
      exact ih (start + ch.utf8Size) n

/-- The first position whose character fails a test is that behind the run that passes it. -/
theorem find?_charPositions (test : Char → Bool) (start : Nat) (text : List Char) :
    (charPositions start text).find? (fun place => !test place.2) =
      (text.dropWhile test).head?.map
        fun ch => (start + utf8Length (text.takeWhile test), ch) := by
  induction text generalizing start with
  | nil => rfl
  | cons ch text ih =>
    cases h : test ch with
    | false => simp [charPositions, h]
    | true =>
      rw [charPositions, List.find?_cons_of_neg (by simp [h]), List.dropWhile_cons_of_pos h,
        List.takeWhile_cons_of_pos h, utf8Length_cons, ← Nat.add_assoc]
      exact ih (start + ch.utf8Size)

namespace Cursor

variable {text : List Char} {a b c : Cursor}

/-- Advancing stops at the character that many places on, or at the end of the text. -/
theorem pos_advance (hc : ofText text ≤ c) (n : Nat) :
    (c.advance n).pos =
      ((charPositions c.pos c.rest)[n]?.map Prod.fst).getD (utf8Length text) := by
  rw [getElem?_charPositions]
  cases h : c.rest[n]? with
  | none =>
    refine pos_of_current_eq_none (le_trans hc (le_advance n c)) ?_
    rw [current, advance, List.head?_drop, h]
  | some ch => rfl

/-- Skipping stops at the first character that fails the test, or at the end of the text. -/
theorem pos_skipWhile (hc : ofText text ≤ c) (test : Char → Bool) :
    (c.skipWhile test).pos =
      (((charPositions c.pos c.rest).find? fun place => !test place.2).map Prod.fst).getD
        (utf8Length text) := by
  rw [find?_charPositions]
  cases h : (c.rest.dropWhile test).head? with
  | none => exact pos_of_current_eq_none (le_trans hc (le_skipWhile test c)) h
  | some ch => rfl

/-! ## Steps as bumps -/

/-- Advancing by one more character is reading one first. -/
theorem advance_succ (n : Nat) (c : Cursor) : c.advance (n + 1) = c.bump.advance n := by
  match c with
  | ⟨[], pos⟩ => simp [advance, bump]
  | ⟨ch :: rest, pos⟩ => simp [advance, bump, Nat.add_assoc]

/-- Advancing is bumping that many times. -/
theorem advance_eq_iterate_bump (n : Nat) (c : Cursor) : c.advance n = bump^[n] c := by
  induction n generalizing c with
  | zero => rfl
  | succ n ih => rw [advance_succ, Function.iterate_succ_apply, ih]

/-- Advancing twice is advancing by the sum. -/
theorem advance_add (m n : Nat) (c : Cursor) :
    c.advance (m + n) = (c.advance m).advance n := by
  rw [advance_eq_iterate_bump, advance_eq_iterate_bump, advance_eq_iterate_bump, Nat.add_comm,
    Function.iterate_add_apply]

/-- Advancing leads to the end of the text when no more characters are left. -/
theorem advance_eq_end_iff (hc : ofText text ≤ c) {n : Nat} :
    c.advance n = ⟨[], utf8Length text⟩ ↔ c.rest.length ≤ n := by
  constructor
  · intro h
    have hrest : c.rest.drop n = [] := congrArg Cursor.rest h
    exact List.drop_eq_nil_iff.1 hrest
  · intro h
    rw [advance, List.drop_eq_nil_of_le h, List.take_of_length_le h, (dropBytes_pos hc).2]

/-- Peeking ahead sees the character that advancing would lead to. -/
theorem peek_eq_current_advance (n : Nat) (c : Cursor) : c.peek n = (c.advance n).current := by
  rw [peek, current, advance, List.head?_drop]

/-- Bumping for as long as the character under the cursor passes the test. -/
def bumpWhile (test : Char → Bool) (c : Cursor) : Cursor :=
  match _h : c.current with
  | some ch => if test ch then bumpWhile test c.bump else c
  | none => c
termination_by c.rest.length
decreasing_by exact length_lt_of_lt (lt_bump _h)

/-- Skipping may be done one character at a time. -/
theorem skipWhile_bump {test : Char → Bool} {ch : Char} (h : c.current = some ch)
    (htest : test ch = true) : c.bump.skipWhile test = c.skipWhile test := by
  match c, h with
  | ⟨_ :: rest, pos⟩, rfl => simp [skipWhile, bump, htest, Nat.add_assoc]

/-- Skipping is bumping while the test passes. -/
theorem skipWhile_eq_bumpWhile (test : Char → Bool) (c : Cursor) :
    c.skipWhile test = c.bumpWhile test := by
  fun_induction bumpWhile test c with
  | case1 c ch h htest ih => rw [← skipWhile_bump h htest, ih]
  | case2 c ch h htest => exact skipWhile_of_stops (stops_of_current h (by simpa using htest))
  | case3 c h =>
    have hrest : c.rest = [] := List.head?_eq_none_iff.1 h
    exact skipWhile_of_stops (by rw [hrest]; exact stops_nil test)

/-- The characters that a number of bumps pass. -/
def bumpedOver : Nat → Cursor → List Char
  | 0, _ => []
  | n + 1, c => c.current.toList ++ bumpedOver n c.bump

/-- Single steps pass as many characters as there are. -/
theorem bumpedOver_eq_take (n : Nat) (c : Cursor) : c.bumpedOver n = c.rest.take n := by
  induction n generalizing c with
  | zero => rfl
  | succ n ih =>
    match c with
    | ⟨[], pos⟩ => simp [bumpedOver, ih, current, bump]
    | ⟨ch :: rest, pos⟩ => simp [bumpedOver, ih, current, bump]

/-- Repeated single steps pass the characters they lead over. -/
theorem passes_iterate_bump (n : Nat) (c : Cursor) : c.Passes (c.bumpedOver n) (bump^[n] c) := by
  rw [bumpedOver_eq_take, ← advance_eq_iterate_bump]
  exact passes_advance n c

/-- Reading on is bumping. -/
theorem le_iff_exists_iterate_bump : a ≤ b ↔ ∃ n, bump^[n] a = b := by
  constructor
  · rintro ⟨text, h⟩
    refine ⟨text.length, ?_⟩
    rw [← advance_eq_iterate_bump]
    exact advance_eq h
  · rintro ⟨n, rfl⟩
    exact (passes_iterate_bump n a).le

/-! ## Sequences of steps -/

/-- A way to move on. -/
inductive Step where
  | advance (n : Nat)
  | bump
  | skipWhile (test : Char → Bool)
  | skipBlank
  | skipBlankInline

/-- The cursor that a step answers. -/
def Step.move (c : Cursor) : Step → Cursor
  | .advance n => c.advance n
  | .bump => c.bump
  | .skipWhile test => c.skipWhile test
  | .skipBlank => c.skipBlank
  | .skipBlankInline => c.skipBlankInline

/-- The cursor after a sequence of steps. -/
def after (c : Cursor) (steps : List Step) : Cursor :=
  steps.foldl Step.move c

/-- No step leads back. -/
theorem Step.le_move (c : Cursor) (step : Step) : c ≤ step.move c := by
  cases step with
  | advance n => exact le_advance n c
  | bump => exact le_bump c
  | skipWhile test => exact le_skipWhile test c
  | skipBlank => exact le_skipBlank c
  | skipBlankInline => exact le_skipBlankInline c

/-- Steps lead forward. -/
theorem le_after (c : Cursor) (steps : List Step) : c ≤ c.after steps := by
  induction steps generalizing c with
  | nil => exact le_refl c
  | cons step steps ih => exact le_trans (step.le_move c) (ih (step.move c))

/-- Wherever reading leads, some steps do. -/
theorem le_iff_exists_after : a ≤ b ↔ ∃ steps, a.after steps = b := by
  constructor
  · rintro ⟨text, h⟩
    exact ⟨[.advance text.length], advance_eq h⟩
  · rintro ⟨steps, rfl⟩
    exact le_after a steps

/-- **The steps of a cursor agree**, at every cursor that steps lead to from the start of a text.
It stands between two characters; advancing, peeking and skipping are told by bumps, and stop at the
end of the text; and they stop at positions of the characters that are left.  Of two such cursors,
the one with the smaller position leads to the other by steps, hence by bumps, and the piece of the
text between them is what the bumps pass. -/
theorem steps_agree (text : List Char) (steps : List Step) :
    let a := (ofText text).after steps
    (Boundary text a.pos ∧ a.pos ≤ utf8Length text ∧ a.rest = dropBytes a.pos text) ∧
    (∀ n, a.advance n = bump^[n] a) ∧
    (∀ m n, a.advance (m + n) = (a.advance m).advance n) ∧
    (∀ n, a.advance n = ⟨[], utf8Length text⟩ ↔ a.rest.length ≤ n) ∧
    (∀ n, a.peek n = (a.advance n).current) ∧
    (∀ test, a.skipWhile test = a.bumpWhile test) ∧
    (∀ n, (a.advance n).pos =
      ((charPositions a.pos a.rest)[n]?.map Prod.fst).getD (utf8Length text)) ∧
    (∀ test, (a.skipWhile test).pos =
      (((charPositions a.pos a.rest).find? fun place => !test place.2).map Prod.fst).getD
        (utf8Length text)) ∧
    ∀ others, let b := (ofText text).after others
      (a.pos ≤ b.pos ↔ ∃ more, a.after more = b) ∧
      (a.pos ≤ b.pos → ∃ n, bump^[n] a = b) ∧
      ∀ n, bump^[n] a = b →
        a.textTo b = a.bumpedOver n ∧ sliceBytes a.pos b.pos text = a.bumpedOver n := by
  intro a
  have ha : ofText text ≤ a := le_after (ofText text) steps
  have hboundary : Boundary text a.pos := boundary_of_le ha
  refine ⟨⟨hboundary, hboundary.le, (dropBytes_pos ha).1.symm⟩,
    fun n => advance_eq_iterate_bump n a, fun m n => advance_add m n a,
    fun n => advance_eq_end_iff ha, fun n => peek_eq_current_advance n a,
    fun test => skipWhile_eq_bumpWhile test a, pos_advance ha, pos_skipWhile ha, ?_⟩
  intro others b
  have hb : ofText text ≤ b := le_after (ofText text) others
  refine ⟨?_, ?_, ?_⟩
  · -- of two cursors into one text the positions tell which one leads to the other
    rw [← le_iff_exists_after]
    exact ⟨le_of_pos_le ha hb, pos_le_of_le⟩
  · intro hpos
    exact le_iff_exists_iterate_bump.1 (le_of_pos_le ha hb hpos)
  · intro n hn
    have hpasses : a.Passes (a.bumpedOver n) b := hn ▸ passes_iterate_bump n a
    exact ⟨textTo_eq hpasses.1, hpasses.sliceBytes_eq ha⟩

/-- Three bumps lead from the accented letter, which takes two bytes, over the blanks to the next
word, whose one character takes four. -/
theorem steps_agree_accented :
    let text := ['n', 'é', '\n', ' ', '😀']
    let a := (ofText text).after [.bump]
    let b := (ofText text).after [.skipWhile (· != '\n'), .skipBlank]
    (a.pos ≤ b.pos ∧ ∃ n, bump^[n] a = b) ∧
      (bump^[3] a = b ∧ a.textTo b = ['é', '\n', ' '] ∧
        sliceBytes a.pos b.pos text = ['é', '\n', ' ']) ∧
      a.advance 4 = ⟨[], 9⟩ := by
  intro text a b
  obtain ⟨-, -, -, hend, -, -, -, -, hslice⟩ := steps_agree text [.bump]
  obtain ⟨-, hbumps, hpassed⟩ := hslice [.skipWhile (· != '\n'), .skipBlank]
  have hpos : a.pos ≤ b.pos := by decide
  have hbump : bump^[3] a = b := rfl
  exact ⟨⟨hpos, hbumps hpos⟩, ⟨hbump, hpassed 3 hbump⟩, (hend 4).2 (by decide)⟩

end Cursor

end Fluent
