/-
# Passages

`a.Passes text b` says that reading `text` leads from the cursor `a` to the cursor `b`.  What a step
or a rule reads is described by the passages it takes: which text, and what must follow it.

* `Passes.split`, `Passes.append` : passages are cut and joined like texts;
* `skipWhile_eq_iff` : skipping passes all that it can and nothing else;
* `Blank`, `Spaces` : the texts that lie between tokens.
-/
import Fluent.Text.Cursor

namespace Fluent

/-! ## Texts between tokens -/

/-- The character is a space or a line feed. -/
def isBlank (ch : Char) : Bool :=
  ch == ' ' || ch == '\n'

/-- The text holds only spaces and line feeds. -/
def Blank (text : List Char) : Prop :=
  ∀ ch ∈ text, isBlank ch = true

/-- The text holds only spaces. -/
def Spaces (text : List Char) : Prop :=
  ∀ ch ∈ text, (ch == ' ') = true

/-- The text does not go on with a character that passes the test. -/
def Stops (test : Char → Bool) (text : List Char) : Prop :=
  ∀ ch, text.head? = some ch → test ch = false

/-- The empty text is blank. -/
theorem blank_nil : Blank [] := by
  simp [Blank]

/-- The empty text holds nothing but spaces. -/
theorem spaces_nil : Spaces [] := by
  simp [Spaces]

/-- Spaces are blanks. -/
theorem Spaces.blank {text : List Char} (h : Spaces text) : Blank text := by
  intro ch hch
  have := h ch hch
  simp_all [isBlank]

/-- Two blank texts in a row are blank. -/
theorem Blank.append {s t : List Char} (hs : Blank s) (ht : Blank t) : Blank (s ++ t) := by
  intro ch hch
  rcases List.mem_append.1 hch with h | h
  · exact hs ch h
  · exact ht ch h

/-- Spaces behind spaces are spaces. -/
theorem Spaces.append {s t : List Char} (hs : Spaces s) (ht : Spaces t) : Spaces (s ++ t) := by
  intro ch hch
  rcases List.mem_append.1 hch with h | h
  · exact hs ch h
  · exact ht ch h

/-- Repeated spaces are spaces. -/
theorem spaces_replicate (n : Nat) : Spaces (List.replicate n ' ') := by
  intro ch hch
  simp [(List.mem_replicate.1 hch).2]

/-- A run of characters stops at the end of a text. -/
theorem stops_nil (test : Char → Bool) : Stops test [] := by
  simp [Stops]

/-- A run of characters stops at a character exactly when the test refuses it. -/
theorem stops_cons {test : Char → Bool} {ch : Char} {text : List Char} :
    Stops test (ch :: text) ↔ test ch = false := by
  simp [Stops]

/-- Where a run stops there is nothing to drop. -/
theorem dropWhile_of_stops {test : Char → Bool} {text : List Char} (h : Stops test text) :
    text.dropWhile test = text := by
  cases text with
  | nil => rfl
  | cons ch text => rw [List.dropWhile_cons_of_neg (by simpa using stops_cons.1 h)]

/-- Where a run stops there is nothing to take. -/
theorem takeWhile_of_stops {test : Char → Bool} {text : List Char} (h : Stops test text) :
    text.takeWhile test = [] := by
  cases text with
  | nil => rfl
  | cons ch text => rw [List.takeWhile_cons_of_neg (by simpa using stops_cons.1 h)]

/-- Behind the dropped characters the run has stopped. -/
theorem stops_dropWhile (test : Char → Bool) (text : List Char) :
    Stops test (text.dropWhile test) := by
  intro ch hch
  have hne : text.dropWhile test ≠ [] := by
    intro h
    simp [h] at hch
  have := List.head_dropWhile_not test hne
  rw [List.head?_eq_some_head hne] at hch
  rw [← Option.some.inj hch]
  exact this

namespace Cursor

/-! ## Passages -/

/-- Reading `text` leads from `a` to `b`. -/
def Passes (a : Cursor) (text : List Char) (b : Cursor) : Prop :=
  a.rest = text ++ b.rest ∧ b.pos = a.pos + utf8Length text

namespace Passes

variable {a b c : Cursor} {s t : List Char}

/-- A cursor passes the empty text by staying. -/
theorem refl (a : Cursor) : a.Passes [] a :=
  ⟨rfl, rfl⟩

/-- Two texts in a row are passed one after the other. -/
theorem append (h : a.Passes s b) (h' : b.Passes t c) : a.Passes (s ++ t) c := by
  obtain ⟨hs, ps⟩ := h
  obtain ⟨ht, pt⟩ := h'
  refine ⟨by rw [hs, ht, List.append_assoc], ?_⟩
  rw [pt, ps, utf8Length_append, Nat.add_assoc]

/-- A passage is cut where its text is cut. -/
theorem split (h : a.Passes (s ++ t) c) : ∃ b, a.Passes s b ∧ b.Passes t c := by
  obtain ⟨hr, hp⟩ := h
  refine ⟨⟨t ++ c.rest, a.pos + utf8Length s⟩, ⟨by rw [hr, List.append_assoc], rfl⟩, rfl, ?_⟩
  rw [hp, utf8Length_append, Nat.add_assoc]

/-- A passage starts with its first character. -/
theorem uncons {ch : Char} (h : a.Passes (ch :: s) c) : ∃ b, a.Passes [ch] b ∧ b.Passes s c :=
  (show a.Passes ([ch] ++ s) c from h).split

/-- The text leads to one place only. -/
theorem unique (h : a.Passes s b) (h' : a.Passes s c) : b = c := by
  obtain ⟨hs, ps⟩ := h
  obtain ⟨ht, pt⟩ := h'
  have hrest : b.rest = c.rest := List.append_cancel_left (hs.symm.trans ht)
  cases b
  cases c
  simp_all

/-- Passing a text never leads back. -/
theorem le (h : a.Passes s b) : a ≤ b :=
  ⟨s, h⟩

/-- A passage without text stays where it is. -/
theorem eq_of_nil (h : a.Passes [] b) : b = a :=
  h.unique (refl a)

/-- The first character of a passed text is the next one. -/
theorem current_cons {ch : Char} (h : a.Passes (ch :: s) b) : a.current = some ch := by
  simp [current, h.1]

/-- Where `before` lies before the start, `before` and the text lie before the end. -/
theorem pos_eq {before : List Char} (h : a.Passes s b) (hpos : a.pos = utf8Length before) :
    b.pos = utf8Length (before ++ s) := by
  rw [h.2, hpos, utf8Length_append]

/-- What stands at the cursor is the start of the text, or of what follows it. -/
theorem current_eq (h : a.Passes s b) : a.current = (s ++ b.rest).head? := by
  rw [current, h.1]

end Passes

/-- A cursor is told by what is left and what lies before it. -/
theorem eq_mk {c : Cursor} {rest : List Char} {pos : Nat} (hr : c.rest = rest) (hp : c.pos = pos) :
    c = ⟨rest, pos⟩ := by
  rw [← hr, ← hp]

/-- In a text that starts with `text`, reading it leads to the rest. -/
theorem passes_of_rest {c : Cursor} {text rest : List Char} (h : c.rest = text ++ rest) :
    c.Passes text ⟨rest, c.pos + utf8Length text⟩ :=
  ⟨h, rfl⟩

/-- A text is read from its start to its end. -/
theorem passes_ofText (text : List Char) : (ofText text).Passes text ⟨[], utf8Length text⟩ :=
  ⟨(List.append_nil text).symm, (Nat.zero_add _).symm⟩

/-- Reading on by one character passes this character. -/
theorem passes_bump {c : Cursor} {ch : Char} (h : c.current = some ch) : c.Passes [ch] c.bump := by
  match c, h with
  | ⟨ch :: rest, pos⟩, rfl => exact ⟨rfl, by simp [bump]⟩

/-- A cursor that passes one character is one further. -/
theorem bump_eq {c stop : Cursor} {ch : Char} (h : c.Passes [ch] stop) : c.bump = stop :=
  (passes_bump h.current_cons).unique h

/-- Skipping passes the characters that are skipped. -/
theorem passes_skipWhile (test : Char → Bool) (c : Cursor) :
    c.Passes (c.leading test) (c.skipWhile test) :=
  ⟨List.takeWhile_append_dropWhile.symm, rfl⟩

/-- Advancing passes as many characters as there are. -/
theorem passes_advance (n : Nat) (c : Cursor) : c.Passes (c.rest.take n) (c.advance n) :=
  ⟨(List.take_append_drop n c.rest).symm, rfl⟩

/-- Advancing by the length of a text that stands there leads behind it. -/
theorem advance_eq {c stop : Cursor} {text : List Char} (h : c.Passes text stop) :
    c.advance text.length = stop := by
  have htake : c.rest.take text.length = text := by
    rw [h.1]
    exact List.take_left
  have hp := passes_advance text.length c
  rw [htake] at hp
  exact hp.unique h

/-- The leading characters all pass the test. -/
theorem all_leading (test : Char → Bool) (c : Cursor) : ∀ ch ∈ c.leading test, test ch = true :=
  List.all_eq_true.1 List.all_takeWhile

/-- What was skipped is determined by where skipping ended. -/
theorem leading_eq {test : Char → Bool} {c stop : Cursor} {text : List Char}
    (hp : c.Passes text stop) (hall : ∀ ch ∈ text, test ch = true) (hstop : Stops test stop.rest) :
    c.leading test = text := by
  rw [leading, hp.1, List.takeWhile_append_of_pos hall, takeWhile_of_stops hstop, List.append_nil]

/-- Skipping passes characters that pass the test, up to one that does not. -/
theorem skipWhile_eq_iff {test : Char → Bool} {c stop : Cursor} :
    c.skipWhile test = stop ↔
      ∃ text, c.Passes text stop ∧ (∀ ch ∈ text, test ch = true) ∧ Stops test stop.rest := by
  constructor
  · rintro rfl
    exact ⟨_, passes_skipWhile test c, all_leading test c, stops_dropWhile test c.rest⟩
  · rintro ⟨text, hp, hall, hstop⟩
    have h := passes_skipWhile test c
    rw [leading_eq hp hall hstop] at h
    exact h.unique hp

/-- Where a character stands that fails the test, the text stops. -/
theorem stops_of_current {test : Char → Bool} {c : Cursor} {ch : Char} (hc : c.current = some ch)
    (h : test ch = false) : Stops test c.rest := by
  intro x hx
  obtain rfl := Option.some.inj (hc.symm.trans hx)
  exact h

/-- Where the text stops, nothing is skipped. -/
theorem skipWhile_of_stops {test : Char → Bool} {c : Cursor} (h : Stops test c.rest) :
    c.skipWhile test = c :=
  skipWhile_eq_iff.2 ⟨[], .refl c, by simp, h⟩

end Cursor

end Fluent
