/-
# Tokens within longer texts

A rule that reads a token of a text reads the same token where the text stands in a longer one, and
a text that the rule refuses it refuses there, at a place that is further on.

* `Placement.Agrees` : what is answered for a text is answered for the longer one; steps in a row
  keep it (`Placement.Agrees.bind`);
* `Placement.AgreesOrEnds` : the same, or nothing but blanks is left of the text;
* `Placement.Apart.identifier`, `Placement.Apart.number`, `Placement.Apart.stringLiteral` : tokens;
* `Placement.Apart.comment` : comments.
-/
import Fluent.Proofs.Text.Placement
import Fluent.Proofs.Grammar.Carrying
import Fluent.Proofs.Grammar.Comments

namespace Fluent

open Grammar

/-- The failure in a text with `ahead` more bytes before it. -/
def ParseFailure.shift (ahead : Nat) (failure : ParseFailure) : ParseFailure :=
  { failure with position := failure.position + ahead }

namespace Placement

/-! ## Answers for both texts -/

/-- What is read from the text is read from the longer one, placed there; and where nothing follows
the text, a failure is placed there as well. -/
structure Agrees (p : Placement) {α : Type} (place : α → α) (x y : Reading α) : Prop where
  ok : ∀ a, x = .ok a → y = .ok (place a)
  error : p.behind = [] → ∀ failure, x = .error failure → y = .error (failure.shift p.ahead)

/-- What was read is the same, and the cursor behind it is placed in the longer text. -/
def read (p : Placement) {α : Type} (found : α × Cursor) : α × Cursor :=
  (found.1, p.cursor found.2)

/-- The answers agree; or something follows the text, and what is read from the text leaves nothing
but blanks of it. -/
def AgreesOrEnds (p : Placement) {α : Type} (x y : Reading (α × Cursor)) : Prop :=
  p.Agrees p.read x y ∨
    p.behind ≠ [] ∧ ∀ a stop, x = .ok (a, stop) → stop.skipBlank.rest = []

variable {p : Placement} {α β : Type}

namespace Agrees

variable {place : α → α} {place' : β → β}

/-- An answer and its placed form agree. -/
theorem of_ok (a : α) : p.Agrees place (.ok a) (.ok (place a)) := by
  refine ⟨fun found hfound => ?_, fun _ _ hfailure => by cases hfailure⟩
  obtain rfl := Except.ok.inj hfound
  rfl

/-- A failure and the failure further on agree, if they are of one kind. -/
theorem of_error (c : Cursor) (kind : FailureKind) (expected : List String) :
    p.Agrees place (.error ⟨c.pos, kind, expected⟩)
      (.error ⟨(p.cursor c).pos, kind, expected⟩) := by
  refine ⟨fun _ hfound => (by cases hfound), fun _ failure hfailure => ?_⟩
  obtain rfl := Except.error.inj hfailure
  rfl

/-- Giving up at a cursor agrees with giving up at the placed one. -/
theorem fail (c : Cursor) (kind : FailureKind) :
    p.Agrees place (c.fail kind) ((p.cursor c).fail kind) :=
  of_error c kind []

/-- What refuses a text with something behind it promises nothing. -/
theorem of_ne_ok {x : Reading α} (hx : ∀ a, x ≠ .ok a) (hne : p.behind ≠ []) (y : Reading α) :
    p.Agrees place x y :=
  ⟨fun a ha => absurd ha (hx a), fun hnil => absurd hnil hne⟩

/-- Answers that agree, then next ones that do. -/
theorem bind_of_ok {x y : Reading α} {f g : α → Reading β} (h : p.Agrees place x y)
    (h' : ∀ a, x = .ok a → p.Agrees place' (f a) (g (place a))) :
    p.Agrees place' (x >>= f) (y >>= g) := by
  cases x with
  | ok a =>
    rw [h.ok a rfl]
    exact h' a rfl
  | error failure =>
    refine ⟨fun _ hfound => (by cases hfound), fun hnil found hfound => ?_⟩
    obtain rfl := Except.error.inj hfound
    rw [h.error hnil failure rfl]
    rfl

/-- Rules that agree one by one agree in a row. -/
theorem bind {x y : Reading α} {f g : α → Reading β} (h : p.Agrees place x y)
    (h' : ∀ a, p.Agrees place' (f a) (g (place a))) : p.Agrees place' (x >>= f) (y >>= g) :=
  h.bind_of_ok fun a _ => h' a

end Agrees

/-- An answer that agrees, then next ones that agree or leave nothing. -/
theorem Agrees.bindOrEnds {x y : Reading α} {f g : α → Reading (β × Cursor)} {place : α → α}
    (h : p.Agrees place x y) (h' : ∀ a, x = .ok a → p.AgreesOrEnds (f a) (g (place a))) :
    p.AgreesOrEnds (x >>= f) (y >>= g) := by
  cases x with
  | ok a =>
    rw [h.ok a rfl]
    exact h' a rfl
  | error failure =>
    refine .inl ⟨fun _ hfound => (by cases hfound), fun hnil found hfound => ?_⟩
    obtain rfl := Except.error.inj hfound
    rw [h.error hnil failure rfl]
    rfl

/-- If the next step refuses where nothing but blanks is left, both steps agree. -/
theorem AgreesOrEnds.bind {x y : Reading (α × Cursor)} {f g : α × Cursor → Reading β}
    {place : β → β} (h : p.AgreesOrEnds x y)
    (h' : ∀ a stop, x = .ok (a, stop) → p.Agrees place (f (a, stop)) (g (a, p.cursor stop)))
    (hends : ∀ a stop, stop.skipBlank.rest = [] → ∀ b, f (a, stop) ≠ .ok b) :
    p.Agrees place (x >>= f) (y >>= g) := by
  rcases h with h | ⟨hne, hleft⟩
  · exact h.bind_of_ok fun found => h' found.1 found.2
  · refine .of_ne_ok (fun b hb => ?_) hne _
    obtain ⟨⟨a, stop⟩, ha, hb⟩ := bind_eq_ok.1 hb
    exact hends a stop (hleft a stop ha) b hb

namespace Apart

variable {c stop : Cursor} (h : p.Apart)
include h

/-! ## Names and numbers -/

/-- A character that ends no line is accepted or refused alike. -/
theorem expectChar {ch : Char} (hch : ch ≠ '\n') :
    p.Agrees p.cursor (Grammar.expectChar c ch) (Grammar.expectChar (p.cursor c) ch) := by
  rw [Grammar.expectChar, Grammar.expectChar]
  by_cases hc : c.current = some ch
  · rw [if_pos hc, if_pos (current_of_some hc), cursor_bump hc]
    exact .of_ok _
  · rw [if_neg hc, if_neg fun heq => hc ((h.current_eq_some_iff hch).1 heq)]
    exact .fail c _

theorem identifier :
    p.Agrees p.read (Grammar.identifier c) (Grammar.identifier (p.cursor c)) := by
  rw [Grammar.identifier, Grammar.identifier, h.current_any (by decide), h.leading (by decide),
    h.skipWhile (by decide)]
  split
  · split
    · exact .fail c _
    · exact .of_ok _
  · exact .fail c _

theorem digits : p.Agrees p.read (Grammar.digits c) (Grammar.digits (p.cursor c)) := by
  rw [Grammar.digits, Grammar.digits, h.leading (by decide), h.skipWhile (by decide)]
  split
  · exact .fail c _
  · exact .of_ok _

theorem numberText :
    p.Agrees p.read (Grammar.numberText c) (Grammar.numberText (p.cursor c)) := by
  have hsign : (if (p.cursor c).current = some '-' then (p.cursor c).bump else p.cursor c) =
      p.cursor (if c.current = some '-' then c.bump else c) := by
    by_cases hminus : c.current = some '-'
    · rw [if_pos hminus, if_pos (current_of_some hminus), cursor_bump hminus]
    · rw [if_neg hminus, if_neg fun heq => hminus ((h.current_eq_some_iff (by decide)).1 heq)]
  rw [Grammar.numberText, Grammar.numberText, hsign]
  simp only [h.current_eq_some_iff (show '-' ≠ '\n' by decide)]
  refine h.digits.bind ?_
  rintro ⟨whole, point⟩
  show p.Agrees p.read _ (if (p.cursor point).current = some '.' then _ else _)
  simp only [h.current_eq_some_iff (show '.' ≠ '\n' by decide)]
  split
  · rename_i hpoint
    show p.Agrees p.read _ (Grammar.digits (p.cursor point).bump >>= _)
    rw [cursor_bump hpoint]
    exact h.digits.bind fun _ => .of_ok _
  · exact .of_ok _

theorem number : p.Agrees p.read (Grammar.number c) (Grammar.number (p.cursor c)) := by
  refine h.numberText.bind ?_
  rintro ⟨raw, last⟩
  dsimp only [read]
  by_cases hlong : maxNumberLength < raw.length
  · rw [if_pos hlong, if_pos hlong]
    exact .fail c _
  · rw [if_neg hlong, if_neg hlong]
    cases NumberLiteral.ofRaw (String.ofList raw) with
    | ok literal => exact .of_ok _
    | error reason => exact .fail c _

/-! ## Strings -/

theorem unicodeEscape {count : Nat} {mark : Char} (hc : c.current = some mark) :
    p.Agrees p.read (Grammar.unicodeEscape c count)
      (Grammar.unicodeEscape (p.cursor c) count) := by
  have hlength : ((c.bump.leading isHexDigit).take count).length ≤ c.bump.rest.length :=
    Nat.le_trans (List.length_take_le' count _) (List.takeWhile_prefix _).length_le
  have hle : c ≤ c.bump.advance ((c.bump.leading isHexDigit).take count).length :=
    Cursor.le_trans (Cursor.le_bump c) (Cursor.le_advance _ _)
  rw [Grammar.unicodeEscape, Grammar.unicodeEscape, cursor_bump hc, h.leading (by decide),
    cursor_advance hlength, cursor_textTo hle]
  split
  · split
    · exact .of_ok _
    · exact .fail c _
  · exact .fail c _

theorem escape : p.Agrees p.read (Grammar.escape c) (Grammar.escape (p.cursor c)) := by
  refine (h.expectChar (by decide)).bind fun mark => ?_
  cases hmark : mark.current with
  | none =>
    rcases h.current_of_none hmark with ⟨-, hnone⟩ | ⟨hne, -⟩
    · rw [hnone]
      exact .fail mark _
    · exact .of_ne_ok (fun _ => fail_ne_ok) hne _
  | some ch =>
    rw [current_of_some hmark]
    split
    case h_1 | h_2 | h_3 =>
      rw [cursor_bump hmark]
      exact .of_ok _
    case h_4 | h_5 => exact h.unicodeEscape hmark
    case h_6 => exact .of_error c _ _
    case h_7 heq => cases heq

/-- Text between quotes is read alike; but at the end of the text it ends, and where something
follows, a line end stands there instead. -/
theorem quotedFrom (start : Cursor) (value : List Char) (c : Cursor) :
    p.AgreesOrEnds (Grammar.quotedFrom start value c)
      (Grammar.quotedFrom (p.cursor start) value (p.cursor c)) := by
  rw [quotedFrom_eq start, quotedFrom_eq (p.cursor start), cursor_pos_sub]
  split
  · exact .inl (.fail start _)
  cases hc : c.current with
  | none =>
    rcases h.current_of_none hc with ⟨-, hnone⟩ | ⟨hne, -⟩
    · rw [hnone]
      exact .inl (.of_ok _)
    · refine .inr ⟨hne, fun a stop hread => ?_⟩
      obtain ⟨-, rfl⟩ := Prod.mk.inj (Except.ok.inj hread)
      have hrest : c.rest = [] := by simpa [Cursor.current] using hc
      rw [Cursor.skipBlank, Cursor.skipWhile, hrest]
      rfl
  | some ch =>
    rw [current_of_some hc]
    dsimp only
    split
    · exact .inl (.of_ok _)
    split
    · exact .inl (.fail c _)
    split
    · refine h.escape.bindOrEnds ?_
      rintro ⟨x, next⟩ hescape
      have hlt := Cursor.length_lt_of_lt (escape_lt hescape)
      exact quotedFrom start (x :: value) next
    · have hlt := Cursor.length_lt_of_lt (Cursor.lt_bump hc)
      rw [cursor_bump hc]
      exact quotedFrom start (ch :: value) c.bump
termination_by c.rest.length

/-- A string literal is read alike: its quotes lie within the text. -/
theorem stringLiteral :
    p.Agrees p.read (Grammar.stringLiteral c) (Grammar.stringLiteral (p.cursor c)) := by
  refine (h.expectChar (by decide)).bind fun start => ?_
  refine (h.quotedFrom start [] start).bind (fun value stop hread => ?_)
    fun value stop hends _ => ?_
  · dsimp only
    rw [cursor_textTo (quotedFrom_le hread)]
    by_cases hquote : stop.current = some '"'
    · rw [if_pos hquote, if_pos (current_of_some hquote), cursor_bump hquote]
      exact .of_ok _
    · rw [if_neg hquote, if_neg fun heq => hquote ((h.current_eq_some_iff (by decide)).1 heq)]
      exact .fail stop _
  · dsimp only
    rw [if_neg (current_ne_of_skipBlank hends (by decide))]
    exact fail_ne_ok

/-! ## Tokens of expressions -/

theorem startsNumber : Grammar.startsNumber (p.cursor c) = Grammar.startsNumber c := by
  rw [Grammar.startsNumber, Grammar.startsNumber]
  cases hc : c.current with
  | none =>
    rcases h.current_of_none hc with ⟨-, hnone⟩ | ⟨-, hline⟩
    · rw [hnone]
    · rw [hline]
      rfl
  | some ch =>
    rw [current_of_some hc]
    split
    case h_1 =>
      obtain ⟨hpeek, hpeek'⟩ := peek_eq (p := p) hc
      rw [hpeek, hpeek', h.current_any (by decide)]
    case h_2 | h_3 => rfl

theorem atArrow : Grammar.atArrow (p.cursor c) = Grammar.atArrow c := by
  rw [Bool.eq_iff_iff, atArrow_iff, atArrow_iff, h.current_eq_some_iff (by decide)]
  refine and_congr_right fun hc => ?_
  obtain ⟨hpeek, hpeek'⟩ := peek_eq (p := p) hc
  rw [hpeek, hpeek', h.current_eq_some_iff (by decide)]

theorem attributeAccessor :
    p.Agrees p.read (Grammar.attributeAccessor c) (Grammar.attributeAccessor (p.cursor c)) := by
  rw [Grammar.attributeAccessor, Grammar.attributeAccessor]
  by_cases hpoint : c.current = some '.'
  · rw [if_pos hpoint, if_pos (current_of_some hpoint), cursor_bump hpoint]
    exact h.identifier.bind fun _ => .of_ok _
  · rw [if_neg hpoint, if_neg fun heq => hpoint ((h.current_eq_some_iff (by decide)).1 heq)]
    exact .of_ok _

theorem literal : p.Agrees p.read (Grammar.literal c) (Grammar.literal (p.cursor c)) := by
  rw [Grammar.literal, Grammar.literal, h.startsNumber]
  simp only [h.current_eq_some_iff (show '"' ≠ '\n' by decide)]
  split
  · exact h.number.bind fun _ => .of_ok _
  split
  · exact h.stringLiteral.bind fun _ => .of_ok _
  · exact .fail c _

theorem keyText : p.Agrees p.read (Grammar.keyText c) (Grammar.keyText (p.cursor c)) := by
  rw [Grammar.keyText, Grammar.keyText, h.current_any (by decide)]
  split
  · exact h.number.bind fun _ => .of_ok _
  · exact h.identifier.bind fun _ => .of_ok _

/-! ## Comments -/

/-- The level of a comment is told alike. -/
theorem commentLevel :
    p.Agrees id (Grammar.commentLevel c) (Grammar.commentLevel (p.cursor c)) := by
  rw [Grammar.commentLevel, Grammar.commentLevel, h.leading (by decide)]
  split
  case h_1 | h_2 | h_3 => exact .of_ok _
  case h_4 => exact .fail c _

/-- A comment line is read alike, if its hashes fit into the text. -/
theorem commentLine {level : CommentLevel} (hc : level.hashes ≤ c.rest.length) :
    p.Agrees p.read (Grammar.commentLine level c) (Grammar.commentLine level (p.cursor c)) := by
  rw [Grammar.commentLine, Grammar.commentLine, cursor_advance hc]
  cases hmark : (c.advance level.hashes).current with
  | none =>
    rcases h.current_of_none hmark with ⟨-, hnone⟩ | ⟨-, hline⟩
    · rw [hnone]
      exact .of_ok _
    · rw [hline]
      exact .of_ok _
  | some ch =>
    rw [current_of_some hmark]
    split
    case h_1 heq => cases heq
    case h_2 => exact .of_ok _
    case h_3 =>
      rw [cursor_bump hmark, h.leading (by decide), h.skipWhile (by decide)]
      exact .of_ok _
    case h_4 | h_5 => exact .fail _ _

/-- A line of a comment is one where the text stands. -/
theorem isCommentLine (level : CommentLevel) :
    Grammar.isCommentLine level (p.cursor c) = Grammar.isCommentLine level c := by
  rw [Grammar.isCommentLine, Grammar.isCommentLine, h.leading (by decide), h.skipWhile (by decide)]
  congr 1
  cases hc : (c.skipWhile (· == '#')).current with
  | some ch => rw [current_of_some hc]
  | none =>
    rcases h.current_of_none hc with ⟨-, hnone⟩ | ⟨-, hline⟩
    · rw [hnone]
    · rw [hline]
      rfl

/-- Whether a comment goes on behind one of its lines is told by the text; the empty line that may
follow it belongs to no comment. -/
theorem comment_goesOn (level : CommentLevel) :
    ((p.cursor c).current = some '\n' ∧ Grammar.isCommentLine level (p.cursor c).bump = true) ↔
      (c.current = some '\n' ∧ Grammar.isCommentLine level c.bump = true) := by
  cases hc : c.current with
  | some ch =>
    rw [current_of_some hc, cursor_bump hc, h.isCommentLine]
  | none =>
    have hrest : c.rest = [] := by simpa [Cursor.current] using hc
    refine iff_of_false ?_ fun hgoes => Option.some_ne_none _ hgoes.1.symm
    rintro ⟨hfeed, hnext⟩
    cases h with
    | nothing =>
      rw [cursor, Cursor.current, hrest] at hfeed
      cases hfeed
    | entry =>
      rw [isCommentLine_eq_false
        (by rw [cursor, hrest]; simp [Cursor.bump, Cursor.current])] at hnext
      cases hnext

/-- The lines of a comment are read alike, by induction on the text left. -/
theorem commentLines {level : CommentLevel} (before : List (List Char)) (c : Cursor)
    (hc : level.hashes ≤ c.rest.length) :
    p.Agrees p.read (Grammar.commentLines level before c)
      (Grammar.commentLines level before (p.cursor c)) := by
  rw [commentLines_eq_bind, commentLines_eq_bind]
  refine (h.commentLine hc).bind_of_ok ?_
  rintro ⟨line, stop⟩ hline
  dsimp only [read]
  by_cases hnext : stop.current = some '\n' ∧ Grammar.isCommentLine level stop.bump = true
  · have hlt : stop.bump.rest.length < c.rest.length := Cursor.length_lt_of_lt
      (Cursor.lt_of_le_of_lt (commentLine_le hline) (Cursor.lt_bump hnext.1))
    have hmarks := hnext.2
    rw [Grammar.isCommentLine, Bool.and_eq_true, beq_iff_eq] at hmarks
    rw [if_pos hnext, if_pos ((h.comment_goesOn level).2 hnext), cursor_bump hnext.1]
    exact commentLines (line :: before) stop.bump (hashes_le_length hmarks.1)
  · rw [if_neg hnext, if_neg fun hgoes => hnext ((h.comment_goesOn level).1 hgoes)]
    exact .of_ok _
termination_by c.rest.length

theorem comment : p.Agrees p.read (Grammar.comment c) (Grammar.comment (p.cursor c)) := by
  refine h.commentLevel.bind_of_ok fun level hlevel => ?_
  refine (h.commentLines [] c (hashes_le_length (hashes_of_commentLevel hlevel))).bind ?_
  exact fun _ => .of_ok _

end Apart

end Placement

end Fluent
