/-
# Progress

Each rule of the grammar, wherever in a text it starts and on whatever level, answers, and does so
at a place of that text: it stops behind what it has read, or gives up somewhere on the way.  All
rules read at least one character when they succeed, but for patterns, attributes, the attribute of
a reference and the text between quotes, which may be empty, and for the line of a comment, of which
nothing is left at the end of a text.  The loops of the grammar end because of it, and the rules
that open braces and parentheses because each takes a level.

* `Ahead` : the offsets that a rule may answer;
* `ReadsOn`, `ReadsSome` : an answer at such a place, and behind at least one character;
* `patternFrom_ends`, `attributesFrom_atLineEnd`, `entry_atLineEnd` : where values and entries stop;
* `Nested.GivesUpFrom.progress`, `rules_progress` : what holds of every rule;
* `commentLine_reads_nothing` : the line of a comment at the end of a text.
-/
import Fluent.Proofs.Grammar.Comments
import Fluent.Proofs.Grammar.PatternReading
import Fluent.Proofs.Grammar.Positions
import Fluent.Proofs.Text.Boundary

namespace Fluent.Grammar

/-! ## Answers within the text -/

/-- The offset lies at the cursor or behind it, within the text and between two characters. -/
structure Ahead (text : List Char) (c : Cursor) (offset : Nat) : Prop where
  pos_le : c.pos ≤ offset
  le_length : offset ≤ utf8Length text
  boundary : Boundary text offset

/-- A rule that started at `c` stopped at a place that reading leads to, or gave up at such a
place. -/
def ReadsOn {α : Type} (text : List Char) (c : Cursor) : Reading (α × Cursor) → Prop
  | .ok (_, stop) => c ≤ stop ∧ Ahead text c stop.pos
  | .error failure => Ahead text c failure.position

/-- A rule that started at `c` stopped behind at least one character, or gave up at a place that
reading leads to. -/
def ReadsSome {α : Type} (text : List Char) (c : Cursor) : Reading (α × Cursor) → Prop
  | .ok (_, stop) => c < stop ∧ c.pos < stop.pos ∧ Ahead text c stop.pos
  | .error failure => Ahead text c failure.position

section Answers

variable {α : Type} {text : List Char} {c d : Cursor}

/-- A position that reading on leads to lies ahead. -/
theorem ahead_of_le (hc : Cursor.ofText text ≤ c) (h : c ≤ d) : Ahead text c d.pos where
  pos_le := Cursor.pos_le_of_le h
  le_length := (boundary_of_le (Cursor.le_trans hc h)).le
  boundary := boundary_of_le (Cursor.le_trans hc h)

/-- The position of a failure lies ahead of where the rule started. -/
theorem GivesUpFrom.ahead {x : Reading α} (hup : GivesUpFrom c x) (hc : Cursor.ofText text ≤ c)
    {failure : ParseFailure} (hx : x = .error failure) : Ahead text c failure.position := by
  obtain ⟨d, hd, hpos⟩ := hup failure hx
  rw [hpos]
  exact ahead_of_le hc hd

/-- What only moves forward and gives up on the way answers within the text. -/
theorem GivesUpFrom.readsOn {x : Reading (α × Cursor)} (hup : GivesUpFrom c x)
    (hc : Cursor.ofText text ≤ c) (hle : ∀ a stop, x = .ok (a, stop) → c ≤ stop) :
    ReadsOn text c x := by
  cases x with
  | error failure => exact hup.ahead hc rfl
  | ok found => exact ⟨hle found.1 found.2 rfl, ahead_of_le hc (hle found.1 found.2 rfl)⟩

/-- What moves by a character or more when it succeeds makes progress. -/
theorem GivesUpFrom.readsSome {x : Reading (α × Cursor)} (hup : GivesUpFrom c x)
    (hc : Cursor.ofText text ≤ c) (hlt : ∀ a stop, x = .ok (a, stop) → c < stop) :
    ReadsSome text c x := by
  cases x with
  | error failure => exact hup.ahead hc rfl
  | ok found =>
    have hfound := hlt found.1 found.2 rfl
    exact ⟨hfound, Cursor.pos_lt_of_lt hfound, ahead_of_le hc (Cursor.le_of_lt hfound)⟩

end Answers

/-! ## Rules that read some characters -/

/-- The escape of a code point is not empty. -/
theorem unicodeEscape_lt {c stop : Cursor} {count : Nat} {ch : Char}
    (h : unicodeEscape c count = .ok (ch, stop)) : c < stop := by
  refine Cursor.lt_of_le_of_lt (Cursor.le_bump c) ?_
  unfold unicodeEscape at h
  dsimp only at h
  split at h
  · rename_i hcond
    obtain ⟨hcount, hlength⟩ := hcond
    -- there are digits, so something stands behind the mark
    have hrest : c.bump.rest ≠ [] := by
      intro hnil
      have hzero : 0 = count := by simpa [Cursor.leading, hnil] using hlength
      exact absurd hzero (Nat.ne_of_lt hcount)
    split at h
    · obtain ⟨-, rfl⟩ := Prod.mk.inj (Except.ok.inj h)
      exact Cursor.lt_advance (Nat.lt_of_lt_of_eq hcount hlength.symm) hrest
    · exact absurd h fail_ne_ok
  · exact absurd h fail_ne_ok

/-- A list of variants has at least one. -/
theorem variants_lt {deep : Nested} {list : List Variant} {c stop : Cursor}
    (h : variants deep c = .ok (list, stop)) : c < stop := by
  unfold variants at h
  split at h
  · unfold variantsFrom at h
    dsimp only at h
    split at h
    · split at h
      · cases h
      · rename_i v last hv
        have hline : c ≤ skipStar c.skipBlank :=
          Cursor.le_trans (Cursor.le_skipBlank c) (le_skipStar _)
        exact Cursor.lt_of_le_of_lt hline
          (Cursor.lt_of_lt_of_le (variant_lt hv) (variantsFrom_le h))
    · split at h
      · exact absurd h fail_ne_ok
      · exact absurd h fail_ne_ok
  · exact absurd h fail_ne_ok

/-- Of the line of a comment nothing is left at the end of a text. -/
theorem commentLine_eq_of_none {level : CommentLevel} {c : Cursor} (hc : c.current = none) :
    commentLine level c = .ok ([], c) := by
  have hmark : c.advance level.hashes = c := Cursor.advance_of_current_none hc level.hashes
  unfold commentLine
  simp only [hmark, hc]

/-! ## Where entries stop -/

/-- A pattern is read up to a line end behind which nothing continues it, or up to the end. -/
theorem patternFrom_ends {deep : Nested} {b : PatternBuilder} {common : Option Nat}
    {c stop : Cursor} {p : Option Pattern} (h : patternFrom deep b common c = .ok (p, stop)) :
    PatternEnds stop := by
  fun_induction patternFrom deep b common c with
  | case1 _ _ c hc =>
    obtain ⟨-, rfl⟩ := Prod.mk.inj (Except.ok.inj h)
    exact .inl hc
  | case2 => cases h
  | case3 _ _ _ _ _ _ _ ih => exact ih h
  | case4 => exact absurd h fail_ne_ok
  | case5 _ _ c hn hc =>
    obtain ⟨-, rfl⟩ := Prod.mk.inj (Except.ok.inj h)
    exact .inr ⟨hc, hn⟩
  | case6 _ _ _ _ _ _ _ _ _ _ ih => exact ih h
  | case7 _ _ _ _ _ _ _ _ ih => exact ih h

theorem PatternEnds.atLineEnd {c : Cursor} (h : PatternEnds c) : AtLineEnd c :=
  h.imp_right And.left

theorem assigned_atLineEnd {deep : Nested} {p : Option Pattern} {c stop : Cursor}
    (h : assigned deep c = .ok (p, stop)) : AtLineEnd stop := by
  obtain ⟨start, -, h⟩ := bind_eq_ok.1 h
  exact (patternFrom_ends h).atLineEnd

/-- Attributes stop where the value of the last one does, or where they were looked for. -/
theorem attributesFrom_atLineEnd {deep : Nested} {before list : List Attribute} {c stop : Cursor}
    (hc : AtLineEnd c) (h : attributesFrom deep before c = .ok (list, stop)) : AtLineEnd stop := by
  fun_induction attributesFrom deep before c with
  | case1 => cases h
  | case2 _ _ _ attr last ha ih =>
    obtain ⟨-, behind, -, -, hv⟩ := oneAttribute_cases ha
    exact ih (assigned_atLineEnd hv) h
  | case3 =>
    obtain ⟨-, rfl⟩ := Prod.mk.inj (Except.ok.inj h)
    exact hc

/-- A message ends at the end of a line or of the text, whatever its last attribute is. -/
theorem message_atLineEnd {deep : Nested} {m : Message} {c stop : Cursor}
    (h : message deep c = .ok (m, stop)) : AtLineEnd stop := by
  obtain ⟨behind, start, -, hv, hl, -, -⟩ := message_cases h
  exact attributesFrom_atLineEnd (assigned_atLineEnd hv) hl

/-- A term ends at the end of a line or of the text, whatever its last attribute is. -/
theorem term_atLineEnd {deep : Nested} {t : Term} {c stop : Cursor}
    (h : term deep c = .ok (t, stop)) : AtLineEnd stop := by
  obtain ⟨first, behind, start, -, -, hv, hl, -⟩ := term_cases h
  exact attributesFrom_atLineEnd (assigned_atLineEnd hv) hl

theorem comment_atLineEnd {found : Comment} {c stop : Cursor}
    (h : Grammar.comment c = .ok (found, stop)) : AtLineEnd stop := by
  obtain ⟨level, hline⟩ := isCommentLine_of_comment h
  obtain ⟨-, found', stop', h', hstop⟩ := comment_of_isCommentLine hline
  obtain ⟨-, rfl⟩ := Prod.mk.inj (Except.ok.inj (h.symm.trans h'))
  exact hstop

/-- **An entry is read up to the end of a line**, or up to the end of the text. -/
theorem entry_atLineEnd {deep : Nested} {found : Entry} {c stop : Cursor}
    (h : entry deep c = .ok (found, stop)) : AtLineEnd stop := by
  rcases entry_cases h with ⟨text, -, -, htext⟩ | ⟨t, -, -, ht⟩ | ⟨m, -, hm⟩
  · exact comment_atLineEnd htext
  · exact term_atLineEnd ht
  · exact message_atLineEnd hm

/-! ## All rules -/

/-- What holds of the rules where they start at `c` in the text; `deep` are the rules for what a
brace or a parenthesis opens.  Those that may match nothing read on, all others read some
characters.  The line of a comment is both: it takes its marks for granted, so at the end of the
text it is empty and nothing is read. -/
structure Progress (deep : Nested) (text : List Char) (c : Cursor) : Prop where
  expectChar : ∀ ch, ReadsSome text c (do let stop ← Grammar.expectChar c ch; return (ch, stop))
  identifier : ReadsSome text c (Grammar.identifier c)
  digits : ReadsSome text c (Grammar.digits c)
  number : ReadsSome text c (Grammar.number c)
  stringLiteral : ReadsSome text c (Grammar.stringLiteral c)
  quoted : ReadsOn text c (Grammar.quoted c)
  escape : ReadsSome text c (Grammar.escape c)
  unicodeEscape : ∀ count, ReadsSome text c (Grammar.unicodeEscape c count)
  comment : ReadsSome text c (Grammar.comment c)
  commentLine : ∀ level, ReadsOn text c (Grammar.commentLine level c)
  commentLine_some : ∀ level, c.current ≠ none → ReadsSome text c (Grammar.commentLine level c)
  commentLine_none : ∀ level, c.current = none → Grammar.commentLine level c = .ok ([], c)
  literal : ReadsSome text c (Grammar.literal c)
  attributeAccessor : ReadsOn text c (Grammar.attributeAccessor c)
  termReference : ReadsSome text c (Grammar.termReference deep c)
  inlineExpression : ReadsSome text c (Grammar.inlineExpression deep c)
  argument : ReadsSome text c (Grammar.argument deep c)
  arguments : ReadsSome text c (deep.arguments.run c)
  variantKey : ReadsSome text c (Grammar.variantKey c)
  variants : ReadsSome text c (Grammar.variants deep c)
  body : ReadsSome text c (Grammar.body deep c)
  placeable : ReadsSome text c ((deep.placeable []).run c)
  pattern : ReadsOn text c (Grammar.pattern deep c)
  pattern_end : ∀ p stop, Grammar.pattern deep c = .ok (p, stop) → AtLineEnd stop
  oneAttribute : ReadsSome text c (Grammar.oneAttribute deep c)
  attributes : ReadsOn text c (Grammar.attributes deep c)
  message : ReadsSome text c (Grammar.message deep c)
  message_end : ∀ m stop, Grammar.message deep c = .ok (m, stop) → AtLineEnd stop
  term : ReadsSome text c (Grammar.term deep c)
  term_end : ∀ t stop, Grammar.term deep c = .ok (t, stop) → AtLineEnd stop
  entry : ReadsSome text c (Grammar.entry deep c)
  entry_end : ∀ e stop, Grammar.entry deep c = .ok (e, stop) → AtLineEnd stop

/-- An expected character is read, or refused where it should stand. -/
theorem readsSome_expectChar {text : List Char} {c : Cursor} (hc : Cursor.ofText text ≤ c)
    (ch : Char) : ReadsSome text c (do let stop ← expectChar c ch; return (ch, stop)) := by
  have hup := (givesUpFrom_expectChar c ch).bind fun stop _ => .ok c (ch, stop)
  refine hup.readsSome hc fun _ _ h => ?_
  obtain ⟨stop, hstop, h⟩ := bind_eq_ok.1 h
  obtain ⟨-, rfl⟩ := Prod.mk.inj (Except.ok.inj h)
  exact expectChar_lt hstop

/-- **The rules of a level make progress** if those for what a brace or a parenthesis opens give up
where they start or behind it. -/
theorem Nested.GivesUpFrom.progress {deep : Nested} (h : deep.GivesUpFrom) {text : List Char}
    {c : Cursor} (hc : Cursor.ofText text ≤ c) : Progress deep text c where
  expectChar ch := readsSome_expectChar hc ch
  identifier := (givesUpFrom_identifier c).readsSome hc fun _ _ => identifier_lt
  digits := (givesUpFrom_digits c).readsSome hc fun _ _ => digits_lt
  number := (givesUpFrom_number c).readsSome hc fun _ _ => number_lt
  stringLiteral := (givesUpFrom_stringLiteral c).readsSome hc fun _ _ => stringLiteral_lt
  quoted := (givesUpFrom_quoted c).readsOn hc fun _ _ => quotedFrom_le
  escape := (givesUpFrom_escape c).readsSome hc fun _ _ => escape_lt
  unicodeEscape count :=
    (givesUpFrom_unicodeEscape c count).readsSome hc fun _ _ => unicodeEscape_lt
  comment := (givesUpFrom_comment c).readsSome hc fun _ _ => comment_lt
  commentLine level := (givesUpFrom_commentLine level c).readsOn hc fun _ _ => commentLine_le
  commentLine_some level hsome :=
    (givesUpFrom_commentLine level c).readsSome hc fun _ _ =>
      commentLine_lt fun hnil => hsome (by rw [Cursor.current, hnil]; rfl)
  commentLine_none _ := commentLine_eq_of_none
  literal := (givesUpFrom_literal c).readsSome hc fun _ _ => literal_lt
  attributeAccessor := (givesUpFrom_attributeAccessor c).readsOn hc fun _ _ => attributeAccessor_le
  termReference := (h.termReference c).readsSome hc fun _ _ => termReference_lt
  inlineExpression := (h.inlineExpression c).readsSome hc fun _ _ => inlineExpression_lt
  argument := (h.argument c).readsSome hc fun _ _ => argument_lt
  arguments := (h.arguments c).readsSome hc fun _ _ => deep.arguments.advances
  variantKey := (givesUpFrom_variantKey c).readsSome hc fun _ _ => variantKey_lt
  variants := (h.variants c).readsSome hc fun _ _ => variants_lt
  body := (h.body c).readsSome hc fun _ _ => body_lt
  placeable := (h.placeable c).readsSome hc fun _ _ => (deep.placeable []).advances
  pattern := (h.pattern c).readsOn hc fun _ _ => pattern_le
  pattern_end _ _ hp := (patternFrom_ends hp).atLineEnd
  oneAttribute := (h.oneAttribute c).readsSome hc fun _ _ => oneAttribute_lt
  attributes := (h.attributesFrom [] c).readsOn hc fun _ _ => attributesFrom_le
  message := (h.message c).readsSome hc fun _ _ => message_lt
  message_end _ _ := message_atLineEnd
  term := (h.term c).readsSome hc fun _ _ => term_lt
  term_end _ _ := term_atLineEnd
  entry := (h.entry c).readsSome hc fun _ _ => entry_lt
  entry_end _ _ := entry_atLineEnd

/-- **Every rule makes progress and answers within the text**, wherever in a text it starts and
whatever number of levels is free.  The rules that may match nothing stop where they start or behind
it, the line of a comment only at the end of the text; patterns, messages, terms and entries stop on
a line feed or at the end of the text. -/
theorem rules_progress (front back : List Char) (allowance : Allowance) :
    Progress allowance.rules (front ++ back) ⟨back, utf8Length front⟩ :=
  (nested_givesUpFrom allowance.limit allowance.left).progress
    ⟨front, rfl, (Nat.zero_add _).symm⟩

/-- The line of a comment is no rule that always reads a character: in the empty text it is read, and
reading stops where it has started. -/
theorem commentLine_reads_nothing :
    commentLine .comment (Cursor.ofText []) = .ok ([], Cursor.ofText []) ∧
      ¬ ReadsSome [] (Cursor.ofText []) (commentLine .comment (Cursor.ofText [])) := by
  have hline : commentLine .comment (Cursor.ofText []) = .ok ([], Cursor.ofText []) :=
    commentLine_eq_of_none rfl
  refine ⟨hline, ?_⟩
  rw [hline]
  exact fun hsome => Nat.lt_irrefl 0 hsome.2.1

end Fluent.Grammar
