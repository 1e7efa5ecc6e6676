/-
# Rules within longer texts

What the rules read from a text they read where the text stands in a longer one.  The rules look
past line ends and empty lines; what they meet there is the end of the text, or the start of an
entry, and neither goes on with what was read.

* `Nested.Placed` : the rules for braces and parentheses read alike;
* `Nested.Placed.inlineExpression`, `Nested.Placed.pattern`, `Nested.Placed.body` : then so do the
  rules for what stands between them;
* `nested_placed` : the rules do so on every level;
* `Nested.Placed.entry` : so does the rule for entries.
-/
import Fluent.Proofs.Grammar.PlacedTokens

namespace Fluent

open Grammar

/-! ## Behind blanks -/

namespace Placement

variable {p : Placement} {c : Cursor}

/-- What reads something if it succeeds refuses the end of a text. -/
theorem ne_ok_of_end {α : Type} {answer : Reading (α × Cursor)}
    (hlt : ∀ {stop : Cursor} {a : α}, answer = .ok (a, stop) → c < stop) (hc : c.rest = []) :
    ∀ found, answer ≠ .ok found := by
  rintro ⟨a, stop⟩ hread
  have hlength := Cursor.length_lt_of_lt (hlt hread)
  rw [hc] at hlength
  exact Nat.not_lt_zero _ hlength

/-- At the end of a text there is no next character. -/
theorem current_of_end {ch : Char} (hc : c.rest = []) : c.current ≠ some ch := by
  rw [Cursor.current, hc]
  exact (Option.some_ne_none ch).symm

/-- At the end of a text there is no arrow. -/
theorem atArrow_of_end (hc : c.rest = []) : atArrow c = false := by
  rw [atArrow, Cursor.startsWith, hc]
  rfl

namespace Apart

variable (h : p.Apart)
include h

/-- Where blanks are skipped to different places, nothing can be read of the text. -/
theorem skipBlank_agrees {α : Type} {place : α → α} (f g : Cursor → Reading α)
    (hagree : p.Agrees place (f c.skipBlank) (g (p.cursor c.skipBlank)))
    (hend : c.skipBlank.rest = [] → ∀ a, f c.skipBlank ≠ .ok a) :
    p.Agrees place (f c.skipBlank) (g (p.cursor c).skipBlank) := by
  rcases h.skipBlank (c := c) with heq | ⟨hne, hrest, -⟩
  · rw [heq]
    exact hagree
  · exact .of_ne_ok (hend hrest) hne _

/-- A character is expected behind blanks alike: the blanks may reach into the longer text, but not
past the start of an entry. -/
theorem expectChar_skipBlank {ch : Char} (hch : ch ≠ '\n') :
    p.Agrees p.cursor (Grammar.expectChar c.skipBlank ch)
      (Grammar.expectChar (p.cursor c).skipBlank ch) :=
  h.skipBlank_agrees (Grammar.expectChar · ch) (Grammar.expectChar · ch) (h.expectChar hch)
    fun hrest _ hread => current_of_end hrest (expectChar_eq_ok.1 hread).1

omit h in
/-- A line ends at the cursor and something else holds further on, if that is so in the text. -/
theorem feed_and_iff {q q' : Prop} (hq : q' ↔ q) (hrest : q → c.rest ≠ []) :
    ((p.cursor c).current = some '\n' ∧ q') ↔ (c.current = some '\n' ∧ q) := by
  rw [hq]
  refine and_congr_left fun hholds => ?_
  obtain ⟨ch, text, hcons⟩ := List.exists_cons_of_ne_nil (hrest hholds)
  have hc : c.current = some ch := by rw [Cursor.current, hcons]; rfl
  rw [hc, current_of_some hc]

omit h in
/-- What stands behind blanks is left of the text. -/
theorem rest_ne_nil {ch : Char} (hc : c.skipBlank.current = some ch) : c.rest ≠ [] := by
  intro hrest
  have hskip : c.skipBlank.rest = [] := by
    rw [Cursor.skipBlank, Cursor.skipWhile, hrest]
    rfl
  exact current_of_end hskip hc

/-! ## Lines that continue a pattern -/

/-- An entry continues no pattern, and an empty line before it does not either. -/
theorem continuationFrom?_behind (hne : p.behind ≠ []) (hc : c.rest = []) (blankLines : Nat) :
    continuationFrom? blankLines (p.cursor c).bump = none := by
  cases h with
  | nothing => exact absurd rfl hne
  | @entry ahead ch text hch =>
    have hfeed : ch ≠ '\n' := by
      rintro rfl
      exact absurd hch (by decide)
    have hspace : (ch == ' ') = false := by
      rw [beq_eq_false_iff_ne]
      rintro rfl
      exact absurd hch (by decide)
    have hline : ∀ {d : Cursor} {x : Char}, d.current = some x → (x == ' ') = false →
        d.skipBlankInline = d := fun hd hx =>
      Cursor.skipWhile_of_stops (Cursor.stops_of_current hd hx)
    have hrest : (Placement.cursor ⟨ahead, '\n' :: '\n' :: ch :: text⟩ c).rest =
        '\n' :: '\n' :: ch :: text := by
      rw [cursor, hc]
      rfl
    generalize Placement.cursor ⟨ahead, '\n' :: '\n' :: ch :: text⟩ c = d at hrest
    obtain ⟨rest, pos⟩ := d
    obtain rfl : rest = _ := hrest
    show continuationFrom? blankLines ⟨'\n' :: ch :: text, _⟩ = none
    -- first the empty line is passed, then the entry is met, which is not indented
    rw [continuationFrom?_eq, hline rfl (by decide)]
    show continuationFrom? (blankLines + 1) ⟨ch :: text, _⟩ = none
    rw [continuationFrom?_eq, hline rfl hspace]
    show (if ch = '\n' then _ else _) = none
    rw [if_neg hfeed, if_pos]
    rw [Cursor.leading, List.takeWhile_cons_of_neg (by simpa using hspace)]
    rfl

end Apart

/-- A line that continues a pattern, in the longer text. -/
def continuation (p : Placement) (next : Continuation) : Continuation :=
  { next with resume := p.cursor next.resume }

namespace Apart

variable (h : p.Apart)
include h

/-- A pattern is continued alike: what follows the text continues none. -/
theorem continuationFrom? (blankLines : Nat) (line : Cursor) :
    Grammar.continuationFrom? blankLines (p.cursor line) =
      (Grammar.continuationFrom? blankLines line).map p.continuation := by
  rw [continuationFrom?_eq blankLines (p.cursor line), continuationFrom?_eq blankLines line,
    h.skipBlankInline, h.leading (by decide)]
  cases hc : line.skipBlankInline.current with
  | none =>
    have hrest : line.skipBlankInline.rest = [] := by simpa [Cursor.current] using hc
    rcases h.current_of_none hc with ⟨-, hnone⟩ | ⟨hne, hfeed⟩
    · rw [hnone]
      rfl
    · rw [hfeed]
      exact h.continuationFrom?_behind hne hrest _
  | some ch =>
    rw [current_of_some hc]
    dsimp only
    split
    · have hlt := Cursor.length_lt_of_lt
        (Cursor.lt_of_le_of_lt (Cursor.le_skipBlankInline line) (Cursor.lt_bump hc))
      rw [cursor_bump hc]
      exact continuationFrom? (blankLines + 1) line.skipBlankInline.bump
    split
    · rfl
    · rfl
termination_by line.rest.length

/-- The line that continues a pattern is the same one. -/
theorem continuation? {ch : Char} (hc : c.current = some ch) :
    Grammar.continuation? (p.cursor c) = (Grammar.continuation? c).map p.continuation := by
  rw [Grammar.continuation?, Grammar.continuation?, cursor_bump hc]
  exact h.continuationFrom? 0 c.bump

end Apart

end Placement

/-! ## Expressions and arguments -/

namespace Grammar

/-- What the rules for braces and parentheses read from a text they read where it stands in a longer
one; the braces before are further on there as well. -/
structure Nested.Placed (deep : Nested) (p : Placement) : Prop where
  apart : p.Apart
  placeable : ∀ (wrappers : List Nat) (c : Cursor), p.Agrees p.read
    ((deep.placeable wrappers).run c)
    ((deep.placeable (wrappers.map (· + p.ahead))).run (p.cursor c))
  arguments : ∀ c : Cursor, p.Agrees p.read (deep.arguments.run c)
    (deep.arguments.run (p.cursor c))

namespace Nested.Placed

open Placement

variable {deep : Nested} {p : Placement} {c : Cursor} (h : deep.Placed p)
include h

theorem termReference :
    p.Agrees p.read (Grammar.termReference deep c) (Grammar.termReference deep (p.cursor c)) := by
  refine (h.apart.expectChar (by decide)).bind fun start => ?_
  refine h.apart.identifier.bind ?_
  rintro ⟨name, point⟩
  refine h.apart.attributeAccessor.bind ?_
  rintro ⟨attr, stop⟩
  dsimp only [Placement.read]
  by_cases hopen : stop.skipBlank.current = some '('
  · rw [if_pos hopen, h.apart.skipBlank_of_current hopen, if_pos (current_of_some hopen)]
    exact (h.arguments _).bind fun _ => .of_ok _
  · rw [if_neg hopen,
      if_neg fun heq => hopen ((h.apart.skipBlank_current_iff (by decide) (by decide)).1 heq)]
    exact .of_ok _

theorem messageOrFunction :
    p.Agrees p.read (Grammar.messageOrFunction deep c)
      (Grammar.messageOrFunction deep (p.cursor c)) := by
  refine h.apart.identifier.bind ?_
  rintro ⟨name, point⟩
  dsimp only [Placement.read]
  by_cases hopen : point.skipBlank.current = some '('
  · rw [if_pos hopen, h.apart.skipBlank_of_current hopen, if_pos (current_of_some hopen)]
    exact (h.arguments _).bind fun _ => .of_ok _
  · rw [if_neg hopen,
      if_neg fun heq => hopen ((h.apart.skipBlank_current_iff (by decide) (by decide)).1 heq)]
    exact h.apart.attributeAccessor.bind fun _ => .of_ok _

theorem inlineExpression :
    p.Agrees p.read (Grammar.inlineExpression deep c)
      (Grammar.inlineExpression deep (p.cursor c)) := by
  have hcurrent : ∀ {ch : Char}, ch ≠ '\n' →
      ((p.cursor c).current = some ch ↔ c.current = some ch) := h.apart.current_eq_some_iff
  rw [Grammar.inlineExpression, Grammar.inlineExpression, h.apart.startsNumber,
    h.apart.current_any (by decide)]
  simp only [hcurrent (show '"' ≠ '\n' by decide), hcurrent (show '-' ≠ '\n' by decide),
    hcurrent (show '$' ≠ '\n' by decide), hcurrent (show '\x7b' ≠ '\n' by decide)]
  split
  · exact h.apart.number.bind fun _ => .of_ok _
  split
  · exact h.apart.stringLiteral.bind fun _ => .of_ok _
  split
  · exact h.termReference
  split
  · rename_i hdollar
    rw [Grammar.variableReference, Grammar.variableReference, cursor_bump hdollar]
    exact h.apart.identifier.bind fun _ => .of_ok _
  split
  · exact (h.placeable [] c).bind fun _ => .of_ok _
  split
  · exact h.messageOrFunction
  · exact .of_error c _ _

theorem argument :
    p.Agrees p.read (Grammar.argument deep c) (Grammar.argument deep (p.cursor c)) := by
  refine h.inlineExpression.bind ?_
  rintro ⟨e, stop⟩
  dsimp only [Placement.read]
  split
  · by_cases hcolon : stop.skipBlank.current = some ':'
    · rw [if_pos hcolon, h.apart.skipBlank_of_current hcolon, if_pos (current_of_some hcolon),
        cursor_bump hcolon]
      exact (h.apart.skipBlank_agrees Grammar.literal Grammar.literal h.apart.literal
        (ne_ok_of_end literal_lt)).bind fun _ => .of_ok _
    · rw [if_neg hcolon,
        if_neg fun heq => hcolon ((h.apart.skipBlank_current_iff (by decide) (by decide)).1 heq)]
      exact .of_ok _
  · exact .of_ok _

omit h in
/-- An argument is added or refused alike. -/
theorem push (soFar : ArgumentsSoFar) (given : Argument) :
    p.Agrees id (soFar.push c given) (soFar.push (p.cursor c) given) := by
  cases given with
  | positional e =>
    rw [ArgumentsSoFar.push, ArgumentsSoFar.push]
    split
    · exact .of_ok _
    · exact .fail c _
  | named a =>
    rw [ArgumentsSoFar.push, ArgumentsSoFar.push]
    split
    · exact .fail c _
    · exact .of_ok _

/-- An argument list is closed alike. -/
theorem close (soFar : ArgumentsSoFar) :
    p.Agrees p.read (soFar.close c) (soFar.close (p.cursor c)) := by
  refine (h.apart.expectChar (by decide)).bind fun stop => ?_
  cases CallArguments.build soFar.positional.reverse soFar.named.reverse with
  | ok list => exact .of_ok _
  | error reason => exact .fail c _

/-- One more argument is read alike, unless the text ends where a comma or a parenthesis should
stand. -/
theorem nextArgument (soFar : ArgumentsSoFar) :
    p.AgreesOrEnds (Grammar.nextArgument deep soFar c)
      (Grammar.nextArgument deep soFar (p.cursor c)) := by
  refine h.argument.bindOrEnds ?_
  rintro ⟨given, stop⟩ -
  refine (push soFar given).bindOrEnds fun extended _ => ?_
  dsimp only [Placement.read]
  rcases h.apart.skipBlank (c := stop) with heq | ⟨hne, hrest, -⟩
  · rw [heq]
    exact .inl (.of_ok (extended, stop.skipBlank))
  · refine .inr ⟨hne, fun found last hread => ?_⟩
    obtain ⟨-, rfl⟩ := Prod.mk.inj (Except.ok.inj hread)
    rw [Cursor.skipBlank, Cursor.skipWhile, hrest]
    rfl

/-- The rest of an argument list is read alike, by induction on the text left. -/
theorem argumentsFrom (soFar : ArgumentsSoFar) (c : Cursor) :
    p.Agrees p.read (Grammar.argumentsFrom deep soFar c)
      (Grammar.argumentsFrom deep soFar (p.cursor c)) := by
  rw [argumentsFrom_eq deep soFar c, argumentsFrom_eq deep soFar (p.cursor c)]
  simp only [h.apart.current_eq_some_iff (show ')' ≠ '\n' by decide)]
  split
  · exact h.close soFar
  refine (h.nextArgument soFar).bind (fun extended stop hnext => ?_) fun extended stop hends => ?_
  · have hlt : stop.bump.skipBlank.rest.length < c.rest.length :=
      Cursor.length_lt_of_lt (Cursor.lt_of_lt_of_le (nextArgument_lt hnext)
        (Cursor.le_trans (Cursor.le_bump _) (Cursor.le_skipBlank _)))
    dsimp only
    by_cases hcomma : stop.current = some ','
    · rw [if_pos hcomma, if_pos (current_of_some hcomma), cursor_bump hcomma]
      exact h.apart.skipBlank_agrees (Grammar.argumentsFrom deep extended)
        (Grammar.argumentsFrom deep extended) (argumentsFrom extended _)
        (ne_ok_of_end argumentsFrom_lt)
    rw [if_neg hcomma, if_neg fun heq => hcomma ((h.apart.current_eq_some_iff (by decide)).1 heq)]
    simp only [h.apart.current_eq_some_iff (show ')' ≠ '\n' by decide)]
    split
    · exact h.close extended
    · exact .of_error stop _ _
  -- where nothing but blanks is left, no further argument and no parenthesis stands
  · dsimp only
    rw [if_neg (current_ne_of_skipBlank hends (by decide)),
      if_neg (current_ne_of_skipBlank hends (by decide))]
    exact fun _ hread => by cases hread
termination_by c.rest.length

theorem callArguments :
    p.Agrees p.read (Grammar.arguments deep c) (Grammar.arguments deep (p.cursor c)) := by
  refine (h.apart.expectChar (by decide)).bind fun start => ?_
  exact h.apart.skipBlank_agrees (Grammar.argumentsFrom deep ⟨[], []⟩)
    (Grammar.argumentsFrom deep ⟨[], []⟩) (h.argumentsFrom _ _) (ne_ok_of_end argumentsFrom_lt)

/-! ## Patterns and selections -/

/-- The rest of a pattern is read alike, by induction on the text left. -/
theorem patternFrom (b : PatternBuilder) (common : Option Nat) (c : Cursor) :
    p.Agrees p.read (Grammar.patternFrom deep b common c)
      (Grammar.patternFrom deep b common (p.cursor c)) := by
  rw [patternFrom_eq deep b common c, patternFrom_eq deep b common (p.cursor c)]
  cases hc : c.current with
  | none =>
    -- at its end the pattern ends, whether nothing follows or an empty line and an entry
    rcases h.apart.current_of_none hc with ⟨-, hnone⟩ | ⟨hne, hfeed⟩
    · rw [hnone]
      exact .of_ok _
    · have hrest : c.rest = [] := by simpa [Cursor.current] using hc
      have hnone : continuation? (p.cursor c) = Option.none :=
        h.apart.continuationFrom?_behind hne hrest 0
      rw [hfeed]
      dsimp only
      rw [if_neg (by decide), if_neg (by decide), if_pos rfl, hnone]
      exact .of_ok _
  | some ch =>
    rw [current_of_some hc]
    dsimp only
    split
    · refine (h.placeable [] c).bind_of_ok ?_
      rintro ⟨e, next⟩ hp
      have hlt := Cursor.length_lt_of_lt ((deep.placeable []).advances hp)
      exact patternFrom (b.pushPlaceable e) common next
    rename_i hopen
    split
    · exact .fail c _
    rename_i hclose
    split
    · rw [h.apart.continuation? hc]
      cases hn : continuation? c with
      | none => exact .of_ok _
      | some next =>
        have hlt := Cursor.length_lt_of_lt (continuation?_lt hc hn)
        exact patternFrom _ _ next.resume
    · rename_i hfeed
      have hlt := Cursor.length_lt_of_lt (Cursor.lt_skipWhile hc (isText_of_ne hopen hclose hfeed))
      rw [h.apart.leading (by decide), h.apart.skipWhile (by decide)]
      exact patternFrom _ common (c.skipWhile isText)
termination_by c.rest.length

theorem pattern :
    p.Agrees p.read (Grammar.pattern deep c) (Grammar.pattern deep (p.cursor c)) :=
  h.patternFrom .empty Option.none c

theorem variantKey :
    p.Agrees p.read (Grammar.variantKey c) (Grammar.variantKey (p.cursor c)) := by
  refine (h.apart.expectChar (by decide)).bind fun start => ?_
  refine (h.apart.skipBlank_agrees Grammar.keyText Grammar.keyText h.apart.keyText
    (ne_ok_of_end keyText_lt)).bind ?_
  rintro ⟨key, stop⟩
  exact (h.apart.expectChar_skipBlank (by decide)).bind fun last => .of_ok (key, last)

theorem variant (isDefault : Bool) :
    p.Agrees p.read (Grammar.variant deep isDefault c)
      (Grammar.variant deep isDefault (p.cursor c)) := by
  refine h.variantKey.bind ?_
  rintro ⟨key, start⟩
  dsimp only [Placement.read]
  rw [h.apart.skipBlankInline]
  refine h.pattern.bind ?_
  rintro ⟨value, stop⟩
  cases value with
  | none => exact .fail stop _
  | some value => exact .of_ok _

/-- Behind blanks and a star a bracket stands at the same place, if one stands there. -/
theorem skipStar :
    ((Grammar.skipStar (p.cursor c).skipBlank).current = some '[' ↔
      (Grammar.skipStar c.skipBlank).current = some '[') ∧
    ((Grammar.skipStar c.skipBlank).current = some '[' →
      Grammar.skipStar (p.cursor c).skipBlank = p.cursor (Grammar.skipStar c.skipBlank)) := by
  rcases h.apart.skipBlank (c := c) with heq | ⟨-, hrest, x, hx, hstart⟩
  · have hskip : Grammar.skipStar (p.cursor c).skipBlank =
        p.cursor (Grammar.skipStar c.skipBlank) := by
      rw [heq, Grammar.skipStar, Grammar.skipStar]
      by_cases hstar : c.skipBlank.current = some '*'
      · rw [if_pos hstar, if_pos (current_of_some hstar), cursor_bump hstar]
      · rw [if_neg hstar, if_neg fun hs => hstar ((h.apart.current_eq_some_iff (by decide)).1 hs)]
    rw [hskip, h.apart.current_eq_some_iff (by decide)]
    exact ⟨Iff.rfl, fun _ => rfl⟩
  · -- neither the end of the text nor the start of an entry is a star or a bracket
    have hne : ∀ {ch : Char}, startsEntry ch = false →
        (p.cursor c).skipBlank.current ≠ some ch := by
      intro ch hch heq
      obtain rfl := Option.some.inj (hx.symm.trans heq)
      rw [hch] at hstart
      cases hstart
    rw [Grammar.skipStar, Grammar.skipStar, if_neg (hne (by decide)), if_neg (current_of_end hrest)]
    exact ⟨iff_of_false (hne (by decide)) (current_of_end hrest),
      fun heq => absurd heq (current_of_end hrest)⟩

/-- The rest of a variant list is read alike, by induction on the text left. -/
theorem variantsFrom (before : List Variant) (c : Cursor) :
    p.Agrees p.read (Grammar.variantsFrom deep before c)
      (Grammar.variantsFrom deep before (p.cursor c)) := by
  obtain ⟨hbracket, hplace⟩ := h.skipStar (c := c)
  have hstar : (p.cursor c).skipBlank.current = some '*' ↔ c.skipBlank.current = some '*' :=
    h.apart.skipBlank_current_iff (by decide) (by decide)
  have hdefault : ((p.cursor c).skipBlank.current == some '*') =
      (c.skipBlank.current == some '*') := by
    rw [Bool.eq_iff_iff, beq_iff_eq, beq_iff_eq, hstar]
  -- in both texts a variant starts on the next line, or in neither
  have hopen := Apart.feed_and_iff (p := p) (c := c) hbracket fun hs hrest => by
    rw [Grammar.skipStar, Cursor.skipBlank, Cursor.skipWhile, hrest] at hs
    cases hs
  have hfeed : ((p.cursor c).current = some '\n' ∧ (c.skipBlank.current == some '*') = true) ↔
      (c.current = some '\n' ∧ (c.skipBlank.current == some '*') = true) :=
    Apart.feed_and_iff Iff.rfl fun hs => Apart.rest_ne_nil (eq_of_beq hs)
  rw [variantsFrom_eq deep before c, variantsFrom_eq deep before (p.cursor c), hdefault]
  simp only [hopen, hfeed]
  split
  · rename_i hline
    -- one more variant, and the list goes on behind it
    rw [hplace hline.2]
    refine (h.variant _).bind_of_ok ?_
    rintro ⟨v, stop⟩ hv
    have hlt : stop.rest.length < c.rest.length :=
      Cursor.length_lt_of_lt (Cursor.lt_of_le_of_lt
        (Cursor.le_trans (Cursor.le_skipBlank c) (le_skipStar _)) (variant_lt hv))
    exact variantsFrom (v :: before) stop
  split
  · rename_i hmark
    have hmark := eq_of_beq hmark.2
    -- a star with no bracket behind it
    rw [h.apart.skipBlank_of_current hmark, Grammar.skipStar, Grammar.skipStar, if_pos hmark,
      if_pos (current_of_some hmark), cursor_bump hmark]
    exact .fail _ _
  split
  · exact .fail c _
  · exact .of_ok _
termination_by c.rest.length

theorem variants :
    p.Agrees p.read (Grammar.variants deep c) (Grammar.variants deep (p.cursor c)) := by
  rw [Grammar.variants, Grammar.variants]
  cases hc : c.current with
  | none =>
    rcases h.apart.current_of_none hc with ⟨-, hnone⟩ | ⟨hne, -⟩
    · rw [hnone]
      exact .fail c _
    · exact .of_ne_ok (fun _ => fail_ne_ok) hne _
  | some ch =>
    rw [current_of_some hc]
    split
    · exact h.variantsFrom [] c
    · exact .fail c _

omit h in
/-- A selector is accepted or refused alike. -/
theorem checkSelector (selector : Expression) :
    p.Agrees id (Grammar.checkSelector selector c)
      (Grammar.checkSelector selector (p.cursor c)) := by
  unfold Grammar.checkSelector
  split
  case h_1 | h_2 | h_3 | h_4 => exact .fail c _
  case h_5 => exact .of_ok _

/-- What a placeable holds is read alike, but for an expression at the end of the text: the entry
that follows may start with an arrow. -/
theorem body : p.AgreesOrEnds (Grammar.body deep c) (Grammar.body deep (p.cursor c)) := by
  refine h.inlineExpression.bindOrEnds ?_
  rintro ⟨selector, after⟩ -
  dsimp only [Placement.read]
  rcases h.apart.skipBlank (c := after) with heq | ⟨hne, hrest, -⟩
  · rw [heq, h.apart.atArrow]
    left
    split
    · rename_i harrow
      -- the arrow lies within the text
      have hlength : 2 ≤ after.skipBlank.rest.length := by
        rw [atArrow, Cursor.startsWith, List.isPrefixOf_iff_prefix] at harrow
        exact harrow.length_le
      refine (checkSelector selector).bind fun _ => ?_
      rw [cursor_advance hlength, h.apart.skipBlankInline]
      refine h.variants.bind ?_
      rintro ⟨list, stop⟩
      dsimp only [Placement.read]
      cases Selection.build selector list with
      | ok selection => exact .of_ok _
      | error reason => exact .fail _ _
    · split
      · exact .fail c _
      · exact .of_ok _
  · refine .inr ⟨hne, fun e stop hread => ?_⟩
    -- here the text ends; what was read can only be the expression
    rw [atArrow_of_end hrest, if_neg (by decide)] at hread
    split at hread
    · exact absurd hread fail_ne_ok
    · obtain ⟨-, rfl⟩ := Prod.mk.inj (Except.ok.inj hread)
      exact hrest

/-! ## Placeables -/

/-- The braces around an expression are closed alike; where they were opened shifts with the
text. -/
theorem closeWrappers (wrappers : List Nat) (e : Expression) :
    p.Agrees p.read (Grammar.closeWrappers wrappers e c)
      (Grammar.closeWrappers (wrappers.map (· + p.ahead)) e (p.cursor c)) := by
  induction wrappers generalizing e c with
  | nil => exact .of_ok _
  | cons start wrappers ih =>
    rw [List.map_cons, Grammar.closeWrappers, Grammar.closeWrappers]
    rcases h.apart.skipBlank (c := c) with heq | ⟨hne, hrest, -⟩
    · rw [heq, h.apart.atArrow]
      split
      · exact .of_error ⟨[], start⟩ _ _
      · exact (h.apart.expectChar (by decide)).bind fun close => ih _
    · refine .of_ne_ok (fun found hread => ?_) hne _
      rw [atArrow_of_end hrest, if_neg (by decide)] at hread
      obtain ⟨close, hclose, -⟩ := bind_eq_ok.1 hread
      exact current_of_end hrest (expectChar_eq_ok.1 hclose).1

theorem closeBody (wrappers : List Nat) :
    p.Agrees p.read (Grammar.closeBody deep wrappers c)
      (Grammar.closeBody deep (wrappers.map (· + p.ahead)) (p.cursor c)) := by
  refine h.body.bind (fun e stop _ => ?_) fun e stop hends found hread => ?_
  · exact (h.apart.expectChar_skipBlank (by decide)).bind fun close => h.closeWrappers wrappers e
  · obtain ⟨close, hclose, -⟩ := bind_eq_ok.1 hread
    exact current_of_end hends (expectChar_eq_ok.1 hclose).1

/-- A placeable is read alike, however many braces it opens with. -/
theorem placeableIn (wrappers : List Nat) :
    p.Agrees p.read (Grammar.placeable deep wrappers c)
      (Grammar.placeable deep (wrappers.map (· + p.ahead)) (p.cursor c)) := by
  refine (h.apart.expectChar (by decide)).bind fun start => ?_
  dsimp only
  by_cases hopen : start.skipBlank.current = some '\x7b'
  · rw [if_pos hopen, h.apart.skipBlank_of_current hopen, if_pos (current_of_some hopen)]
    exact h.placeable (start.skipBlank.pos :: wrappers) start.skipBlank
  · rw [if_neg hopen,
      if_neg fun heq => hopen ((h.apart.skipBlank_current_iff (by decide) (by decide)).1 heq)]
    exact h.apart.skipBlank_agrees (Grammar.closeBody deep wrappers)
      (Grammar.closeBody deep (wrappers.map (· + p.ahead))) (h.closeBody wrappers)
      (ne_ok_of_end closeBody_lt)

/-! ## Entries -/

theorem assigned :
    p.Agrees p.read (Grammar.assigned deep c) (Grammar.assigned deep (p.cursor c)) := by
  rw [Grammar.assigned, Grammar.assigned, h.apart.skipBlankInline]
  refine (h.apart.expectChar (by decide)).bind fun start => ?_
  rw [h.apart.skipBlankInline]
  exact h.pattern

theorem oneAttribute :
    p.Agrees p.read (Grammar.oneAttribute deep c) (Grammar.oneAttribute deep (p.cursor c)) := by
  refine (h.apart.expectChar (by decide)).bind fun start => ?_
  refine h.apart.identifier.bind ?_
  rintro ⟨name, behind⟩
  refine h.assigned.bind ?_
  rintro ⟨value, stop⟩
  cases value with
  | none => exact .fail stop _
  | some value => exact .of_ok _

/-- A list of attributes is read alike, by induction on the text left. -/
theorem attributesFrom (before : List Attribute) (c : Cursor) :
    p.Agrees p.read (Grammar.attributesFrom deep before c)
      (Grammar.attributesFrom deep before (p.cursor c)) := by
  have hpoint : ((p.cursor c).current = some '\n' ∧ (p.cursor c).skipBlank.current = some '.') ↔
      (c.current = some '\n' ∧ c.skipBlank.current = some '.') :=
    Apart.feed_and_iff (h.apart.skipBlank_current_iff (by decide) (by decide)) Apart.rest_ne_nil
  rw [attributesFrom_eq deep before c, attributesFrom_eq deep before (p.cursor c)]
  simp only [hpoint]
  split
  · rename_i hline
    rw [h.apart.skipBlank_of_current hline.2]
    refine h.oneAttribute.bind_of_ok ?_
    rintro ⟨attr, stop⟩ hattr
    have hlt : stop.rest.length < c.rest.length :=
      Cursor.length_lt_of_lt (Cursor.lt_of_le_of_lt (Cursor.le_skipBlank c) (oneAttribute_lt hattr))
    exact attributesFrom (attr :: before) stop
  · exact .of_ok _
termination_by c.rest.length

theorem message :
    p.Agrees p.read (Grammar.message deep c) (Grammar.message deep (p.cursor c)) := by
  refine h.apart.identifier.bind ?_
  rintro ⟨name, behind⟩
  refine h.assigned.bind ?_
  rintro ⟨value, start⟩
  refine (h.attributesFrom [] start).bind ?_
  rintro ⟨list, stop⟩
  dsimp only [Placement.read]
  split
  · exact .fail c _
  · exact .of_ok _

theorem term : p.Agrees p.read (Grammar.term deep c) (Grammar.term deep (p.cursor c)) := by
  refine (h.apart.expectChar (by decide)).bind fun first => ?_
  refine h.apart.identifier.bind ?_
  rintro ⟨name, behind⟩
  refine h.assigned.bind ?_
  rintro ⟨value, start⟩
  cases value with
  | none => exact .fail c _
  | some value => exact (h.attributesFrom [] start).bind fun _ => .of_ok _

theorem entry : p.Agrees p.read (Grammar.entry deep c) (Grammar.entry deep (p.cursor c)) := by
  rw [Grammar.entry, Grammar.entry, h.apart.current_any (by decide)]
  simp only [h.apart.current_eq_some_iff (show '#' ≠ '\n' by decide),
    h.apart.current_eq_some_iff (show '-' ≠ '\n' by decide)]
  split
  · exact h.apart.comment.bind fun _ => .of_ok _
  split
  · exact h.term.bind fun _ => .of_ok _
  split
  · exact h.message.bind fun _ => .of_ok _
  · exact .of_error c _ _

/-- Where nothing follows the text, line ends behind entries are read alike. -/
theorem entryLine (hnil : p.behind = []) :
    p.Agrees p.read ((Fluent.entryLine deep).run c) ((Fluent.entryLine deep).run (p.cursor c)) := by
  have hend : ∀ stop : Cursor, p.Agrees p.cursor (lineEnd stop) (lineEnd (p.cursor stop)) := by
    intro stop
    rw [lineEnd, lineEnd]
    cases hc : stop.current with
    | none =>
      rcases h.apart.current_of_none hc with ⟨-, hnone⟩ | ⟨hne, -⟩
      · rw [hnone]
        exact .of_ok _
      · exact absurd hnil hne
    | some ch =>
      rw [current_of_some hc]
      dsimp only
      split
      · rw [cursor_bump hc]
        exact .of_ok _
      · exact .fail stop _
  refine h.entry.bind ?_
  rintro ⟨found, stop⟩
  exact (hend stop).bind fun last => .of_ok (found, last)

end Nested.Placed

/-- On every level the rules read alike where a text stands in a longer one. -/
theorem nested_placed {p : Placement} (hp : p.Apart) (limit left : Nat) :
    (nested limit left).Placed p := by
  induction left with
  | zero => exact ⟨hp, fun _ c => .fail c _, fun c => .fail c _⟩
  | succ left ih => exact ⟨hp, fun wrappers _ => ih.placeableIn wrappers, fun _ => ih.callArguments⟩

end Grammar

end Fluent
