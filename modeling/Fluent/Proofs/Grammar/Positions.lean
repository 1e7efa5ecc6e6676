/-
# Where rules give up

A rule reads on from where it starts, so it also gives up there or behind it: the position that it
answers is that of a cursor which reading on leads to.

* `GivesUpFrom` : the position of a failure lies at the cursor or behind it; steps in a row keep
  this (`GivesUpFrom.bind`);
* `givesUpFrom_number`, `givesUpFrom_stringLiteral`, `givesUpFrom_comment` : tokens and comments;
* `Nested.GivesUpFrom` : the rules for what a brace or a parenthesis opens, and all above them;
* `nested_givesUpFrom` : so it is on every level.
-/
import Fluent.Proofs.Grammar.Placeables
import Fluent.Resource.Items

namespace Fluent.Grammar

/-! ## Failures and their positions -/

/-- If the answer is a failure, its position is that of a cursor at `c` or behind it. -/
def GivesUpFrom {α : Type} (c : Cursor) (x : Reading α) : Prop :=
  ∀ failure, x = .error failure → ∃ d, c ≤ d ∧ failure.position = d.pos

namespace GivesUpFrom

variable {α β : Type} {c d : Cursor}

/-- A rule that answers gives up nowhere. -/
theorem ok (c : Cursor) (a : α) : GivesUpFrom c (.ok a) :=
  nofun

/-- Giving up at a cursor that reading has led to. -/
theorem error (h : c ≤ d) (kind : FailureKind) (expected : List String) :
    GivesUpFrom c (.error ⟨d.pos, kind, expected⟩ : Reading α) := by
  rintro _ ⟨⟩
  exact ⟨d, h, rfl⟩

/-- A rule that gives up at a later cursor gives up behind the first one. -/
theorem fail (h : c ≤ d) (kind : FailureKind) : GivesUpFrom c (d.fail kind : Reading α) :=
  error h kind []

/-- What gives up behind a later cursor gives up behind an earlier one. -/
theorem mono {x : Reading α} (hle : c ≤ d) (h : GivesUpFrom d x) : GivesUpFrom c x := by
  intro failure hx
  obtain ⟨e, hde, hpos⟩ := h failure hx
  exact ⟨e, Cursor.le_trans hle hde, hpos⟩

/-- A failure that is only passed on. -/
theorem pass {x : Reading β} {failure : ParseFailure} (h : GivesUpFrom c x)
    (hx : x = .error failure) : GivesUpFrom c (.error failure : Reading α) := by
  rintro _ ⟨⟩
  exact h failure hx

/-- Steps in a row: the first gives up, or the next one does. -/
theorem bind {x : Reading α} {f : α → Reading β} (h : GivesUpFrom c x)
    (h' : ∀ a, x = .ok a → GivesUpFrom c (f a)) : GivesUpFrom c (x >>= f) := by
  cases x with
  | error failure => exact h.pass rfl
  | ok a => exact h' a rfl

/-- The value is only wrapped. -/
theorem wrap {x : Reading (α × Cursor)} (h : GivesUpFrom c x) (wrapper : α → β) :
    GivesUpFrom c (do let (a, stop) ← x; return (wrapper a, stop)) :=
  h.bind fun _ _ => ok c _

end GivesUpFrom

/-! ## Tokens -/

/-- An unexpected character is reported where it stands. -/
theorem givesUpFrom_expectChar (c : Cursor) (ch : Char) : GivesUpFrom c (expectChar c ch) := by
  unfold expectChar
  split
  · exact .ok c _
  · exact .fail (Cursor.le_refl c) _

/-- A missing identifier is reported where it should start. -/
theorem givesUpFrom_identifier (c : Cursor) : GivesUpFrom c (identifier c) := by
  unfold identifier
  split
  · split
    · exact .fail (Cursor.le_refl c) _
    · exact .ok c _
  · exact .fail (Cursor.le_refl c) _

/-- A missing digit is reported where it should stand. -/
theorem givesUpFrom_digits (c : Cursor) : GivesUpFrom c (digits c) := by
  unfold digits
  split
  · exact .fail (Cursor.le_refl c) _
  · exact .ok c _

/-- A number gives up at one of its digits, or where one is missing. -/
theorem givesUpFrom_numberText (c : Cursor) : GivesUpFrom c (numberText c) := by
  have hsign : c ≤ if c.current = some '-' then c.bump else c := by
    split
    · exact Cursor.le_bump c
    · exact Cursor.le_refl c
  refine ((givesUpFrom_digits _).mono hsign).bind fun ⟨whole, point⟩ hw => ?_
  have hpoint : c ≤ point := Cursor.le_trans hsign (Cursor.le_of_lt (digits_lt hw))
  dsimp only
  split
  · refine ((givesUpFrom_digits _).mono (Cursor.le_trans hpoint (Cursor.le_bump point))).bind ?_
    exact fun _ _ => .ok c _
  · exact .ok c _

/-- A number that is too long or does not fit is refused where it starts. -/
theorem givesUpFrom_number (c : Cursor) : GivesUpFrom c (number c) := by
  refine (givesUpFrom_numberText c).bind fun ⟨raw, stop⟩ _ => ?_
  dsimp only
  split
  · exact .fail (Cursor.le_refl c) _
  · split
    · exact .ok c _
    · exact .fail (Cursor.le_refl c) _

/-- A wrong code point is reported behind the mark that announces it. -/
theorem givesUpFrom_unicodeEscape (c : Cursor) (count : Nat) :
    GivesUpFrom c (unicodeEscape c count) := by
  unfold unicodeEscape
  dsimp only
  split
  · split
    · exact .ok c _
    · exact .fail (Cursor.le_refl c) _
  · exact .fail (Cursor.le_refl c) _

/-- A wrong escape is reported at its backslash or behind it. -/
theorem givesUpFrom_escape (c : Cursor) : GivesUpFrom c (escape c) := by
  refine (givesUpFrom_expectChar c _).bind fun mark hmark => ?_
  have hle := Cursor.le_of_lt (expectChar_lt hmark)
  split
  case h_1 | h_2 | h_3 => exact .ok c _
  case h_4 | h_5 => exact (givesUpFrom_unicodeEscape mark _).mono hle
  case h_6 => exact .error (Cursor.le_refl c) _ _
  case h_7 => exact .fail hle _

/-- A text that is too long is refused where it starts, all else where it stands. -/
theorem givesUpFrom_quotedFrom {start c : Cursor} (hle : start ≤ c) (value : List Char) :
    GivesUpFrom start (quotedFrom start value c) := by
  fun_induction quotedFrom start value c with
  | case1 => exact .fail (Cursor.le_refl start) _
  | case2 | case3 => exact .ok start _
  | case4 | case5 => exact .fail hle _
  | case6 _ c _ _ _ next he ih => exact ih (Cursor.le_trans hle (Cursor.le_of_lt (escape_lt he)))
  | case7 _ c _ _ failure he => exact ((givesUpFrom_escape c).mono hle).pass he
  | case8 _ c _ _ _ _ _ _ _ ih => exact ih (Cursor.le_trans hle (Cursor.le_bump c))

theorem givesUpFrom_quoted (c : Cursor) : GivesUpFrom c (quoted c) :=
  givesUpFrom_quotedFrom (Cursor.le_refl c) []

theorem givesUpFrom_stringLiteral (c : Cursor) : GivesUpFrom c (stringLiteral c) := by
  refine (givesUpFrom_expectChar c _).bind fun start hs => ?_
  have hstart := Cursor.le_of_lt (expectChar_lt hs)
  refine ((givesUpFrom_quoted start).mono hstart).bind fun ⟨value, stop⟩ hq => ?_
  dsimp only
  split
  · exact .ok c _
  · exact .fail (Cursor.le_trans hstart (quotedFrom_le hq)) _

theorem givesUpFrom_literal (c : Cursor) : GivesUpFrom c (literal c) := by
  unfold literal
  split
  · exact (givesUpFrom_number c).wrap _
  split
  · exact (givesUpFrom_stringLiteral c).wrap _
  · exact .fail (Cursor.le_refl c) _

theorem givesUpFrom_attributeAccessor (c : Cursor) : GivesUpFrom c (attributeAccessor c) := by
  unfold attributeAccessor
  split
  · exact ((givesUpFrom_identifier c.bump).mono (Cursor.le_bump c)).bind fun _ _ => .ok c _
  · exact .ok c _

theorem givesUpFrom_variableReference (c : Cursor) : GivesUpFrom c (variableReference c) :=
  ((givesUpFrom_identifier c.bump).mono (Cursor.le_bump c)).bind fun _ _ => .ok c _

theorem givesUpFrom_keyText (c : Cursor) : GivesUpFrom c (keyText c) := by
  unfold keyText
  split
  · exact (givesUpFrom_number c).wrap _
  · exact (givesUpFrom_identifier c).wrap fun name => VariantKey.identifier ⟨name⟩

theorem givesUpFrom_variantKey (c : Cursor) : GivesUpFrom c (variantKey c) := by
  refine (givesUpFrom_expectChar c _).bind fun start hs => ?_
  have hstart : c ≤ start.skipBlank :=
    Cursor.le_trans (Cursor.le_of_lt (expectChar_lt hs)) (Cursor.le_skipBlank start)
  refine ((givesUpFrom_keyText _).mono hstart).bind fun ⟨key, stop⟩ hk => ?_
  have hstop : c ≤ stop.skipBlank := Cursor.le_trans hstart
    (Cursor.le_trans (Cursor.le_of_lt (keyText_lt hk)) (Cursor.le_skipBlank stop))
  exact ((givesUpFrom_expectChar _ _).mono hstop).bind fun _ _ => .ok c _

/-! ## Comments -/

/-- A missing comment level is reported where the hashes should stand. -/
theorem givesUpFrom_commentLevel (c : Cursor) : GivesUpFrom c (commentLevel c) := by
  unfold commentLevel
  split
  case h_1 | h_2 | h_3 => exact .ok c _
  case h_4 => exact .fail (Cursor.le_refl c) _

theorem givesUpFrom_commentLine (level : CommentLevel) (c : Cursor) :
    GivesUpFrom c (commentLine level c) := by
  have hmark := Cursor.le_advance level.hashes c
  unfold commentLine
  dsimp only
  split
  case h_1 | h_2 | h_3 => exact .ok c _
  case h_4 | h_5 => exact .fail hmark _

/-- The lines of a comment give up at the first of them or behind it. -/
theorem givesUpFrom_commentLines (level : CommentLevel) (before : List (List Char)) (c : Cursor) :
    GivesUpFrom c (commentLines level before c) := by
  fun_induction commentLines level before c with
  | case1 _ c failure hl => exact (givesUpFrom_commentLine level c).pass hl
  | case2 _ c line stop hl _ ih =>
    exact ih.mono (Cursor.le_trans (commentLine_le hl) (Cursor.le_bump stop))
  | case3 _ c => exact .ok c _

theorem givesUpFrom_comment (c : Cursor) : GivesUpFrom c (comment c) :=
  (givesUpFrom_commentLevel c).bind fun level _ =>
    (givesUpFrom_commentLines level [] c).bind fun _ _ => .ok c _

/-! ## The rules of one level -/

/-- The rules for what a brace or a parenthesis opens give up from there on. -/
structure Nested.GivesUpFrom (deep : Nested) : Prop where
  placeable : ∀ c, Grammar.GivesUpFrom c ((deep.placeable []).run c)
  arguments : ∀ c, Grammar.GivesUpFrom c (deep.arguments.run c)

namespace Nested.GivesUpFrom

variable {deep : Nested} (h : deep.GivesUpFrom)
include h

/-! ## Expressions and arguments -/

theorem termReference (c : Cursor) : Grammar.GivesUpFrom c (termReference deep c) := by
  refine (givesUpFrom_expectChar c _).bind fun start hs => ?_
  have hstart := Cursor.le_of_lt (expectChar_lt hs)
  refine ((givesUpFrom_identifier start).mono hstart).bind fun ⟨name, point⟩ hi => ?_
  have hpoint := Cursor.le_trans hstart (Cursor.le_of_lt (identifier_lt hi))
  refine ((givesUpFrom_attributeAccessor point).mono hpoint).bind fun ⟨attr, stop⟩ ha => ?_
  have hstop := Cursor.le_trans hpoint (attributeAccessor_le ha)
  dsimp only
  split
  · exact ((h.arguments _).mono (Cursor.le_trans hstop (Cursor.le_skipBlank stop))).bind
      fun _ _ => .ok c _
  · exact .ok c _

theorem messageOrFunction (c : Cursor) : Grammar.GivesUpFrom c (messageOrFunction deep c) := by
  refine (givesUpFrom_identifier c).bind fun ⟨name, point⟩ hi => ?_
  have hpoint := Cursor.le_of_lt (identifier_lt hi)
  dsimp only
  split
  · exact ((h.arguments _).mono (Cursor.le_trans hpoint (Cursor.le_skipBlank point))).wrap _
  · exact ((givesUpFrom_attributeAccessor point).mono hpoint).wrap _

theorem inlineExpression (c : Cursor) : Grammar.GivesUpFrom c (inlineExpression deep c) := by
  unfold Grammar.inlineExpression
  split
  · exact (givesUpFrom_number c).wrap _
  split
  · exact (givesUpFrom_stringLiteral c).wrap _
  split
  · exact h.termReference c
  split
  · exact givesUpFrom_variableReference c
  split
  · exact (h.placeable c).wrap _
  split
  · exact h.messageOrFunction c
  · exact .error (Cursor.le_refl c) _ _

theorem argument (c : Cursor) : Grammar.GivesUpFrom c (argument deep c) := by
  refine (h.inlineExpression c).bind fun ⟨e, stop⟩ he => ?_
  have hstop := Cursor.le_trans (Cursor.le_of_lt (inlineExpression_lt he))
    (Cursor.le_skipBlank stop)
  dsimp only
  split
  · split
    · exact ((givesUpFrom_literal _).mono (Cursor.le_trans hstop
        (Cursor.le_trans (Cursor.le_bump _) (Cursor.le_skipBlank _)))).bind fun _ _ => .ok c _
    · exact .ok c _
  · exact .ok c _

omit h in
/-- An argument that may not be added is reported at the given cursor. -/
theorem push (soFar : ArgumentsSoFar) (c : Cursor) (given : Argument) :
    Grammar.GivesUpFrom c (soFar.push c given) := by
  unfold ArgumentsSoFar.push
  split
  · split
    · exact .ok c _
    · exact .fail (Cursor.le_refl c) _
  · split
    · exact .fail (Cursor.le_refl c) _
    · exact .ok c _

omit h in
/-- An argument list that may not be closed is reported where its parenthesis should stand. -/
theorem close (soFar : ArgumentsSoFar) (c : Cursor) :
    Grammar.GivesUpFrom c (soFar.close c) := by
  refine (givesUpFrom_expectChar c _).bind fun stop _ => ?_
  split
  · exact .ok c _
  · exact .fail (Cursor.le_refl c) _

theorem nextArgument (soFar : ArgumentsSoFar) (c : Cursor) :
    Grammar.GivesUpFrom c (nextArgument deep soFar c) :=
  (h.argument c).bind fun ⟨given, _⟩ _ => (push soFar c given).bind fun _ _ => .ok c _

theorem argumentsFrom (soFar : ArgumentsSoFar) (c : Cursor) :
    Grammar.GivesUpFrom c (argumentsFrom deep soFar c) := by
  fun_induction Grammar.argumentsFrom deep soFar c with
  | case1 soFar c => exact close soFar c
  | case2 soFar c _ failure ha => exact (h.nextArgument soFar c).pass ha
  | case3 _ _ _ _ stop ha _ ih =>
    exact ih.mono (Cursor.le_trans (Cursor.le_of_lt (nextArgument_lt ha))
      (Cursor.le_trans (Cursor.le_bump stop) (Cursor.le_skipBlank _)))
  | case4 _ _ _ extended stop ha =>
    exact (close extended stop).mono (Cursor.le_of_lt (nextArgument_lt ha))
  | case5 _ _ _ _ _ ha => exact .error (Cursor.le_of_lt (nextArgument_lt ha)) _ _

theorem callArguments (c : Cursor) : Grammar.GivesUpFrom c (Grammar.arguments deep c) :=
  (givesUpFrom_expectChar c _).bind fun start hs => (h.argumentsFrom _ _).mono
    (Cursor.le_trans (Cursor.le_of_lt (expectChar_lt hs)) (Cursor.le_skipBlank start))

/-! ## Patterns and selections -/

theorem patternFrom (b : PatternBuilder) (common : Option Nat) (c : Cursor) :
    Grammar.GivesUpFrom c (patternFrom deep b common c) := by
  fun_induction Grammar.patternFrom deep b common c with
  | case1 _ _ c | case5 _ _ c => exact .ok c _
  | case2 _ _ c failure hp => exact (h.placeable c).pass hp
  | case3 _ _ _ _ _ hp _ ih => exact ih.mono (Cursor.le_of_lt ((deep.placeable []).advances hp))
  | case4 _ _ c => exact .fail (Cursor.le_refl c) _
  | case6 _ _ _ _ hn _ _ hc _ _ ih => exact ih.mono (Cursor.le_of_lt (continuation?_lt hc hn))
  | case7 _ _ c _ _ _ _ _ ih => exact ih.mono (Cursor.le_skipWhile _ c)

theorem pattern (c : Cursor) : Grammar.GivesUpFrom c (pattern deep c) :=
  h.patternFrom _ _ c

theorem variant (isDefault : Bool) (c : Cursor) :
    Grammar.GivesUpFrom c (variant deep isDefault c) := by
  refine (givesUpFrom_variantKey c).bind fun ⟨key, start⟩ hk => ?_
  have hstart := Cursor.le_trans (Cursor.le_of_lt (variantKey_lt hk))
    (Cursor.le_skipBlankInline start)
  refine ((h.pattern _).mono hstart).bind fun ⟨value, stop⟩ hp => ?_
  dsimp only
  split
  · exact .ok c _
  · exact .fail (Cursor.le_trans hstart (pattern_le hp)) _

theorem variantsFrom (before : List Variant) (c : Cursor) :
    Grammar.GivesUpFrom c (variantsFrom deep before c) := by
  have hline : ∀ c : Cursor, c ≤ skipStar c.skipBlank :=
    fun c => Cursor.le_trans (Cursor.le_skipBlank c) (le_skipStar _)
  fun_induction Grammar.variantsFrom deep before c with
  | case1 _ c _ _ _ failure hv => exact ((h.variant _ _).mono (hline c)).pass hv
  | case2 _ c _ _ _ _ _ hv ih =>
    exact ih.mono (Cursor.le_trans (hline c) (Cursor.le_of_lt (variant_lt hv)))
  | case3 _ c => exact .fail (hline c) _
  | case4 _ c => exact .fail (Cursor.le_refl c) _
  | case5 _ c => exact .ok c _

theorem variants (c : Cursor) : Grammar.GivesUpFrom c (variants deep c) := by
  unfold Grammar.variants
  split
  · exact h.variantsFrom [] c
  · exact .fail (Cursor.le_refl c) _

omit h in
/-- A selector that may not stand before an arrow is reported at the given cursor. -/
theorem checkSelector (selector : Expression) (c : Cursor) :
    Grammar.GivesUpFrom c (checkSelector selector c) := by
  unfold Grammar.checkSelector
  split
  case h_1 | h_2 | h_3 | h_4 => exact .fail (Cursor.le_refl c) _
  case h_5 => exact .ok c _

theorem body (c : Cursor) : Grammar.GivesUpFrom c (body deep c) := by
  refine (h.inlineExpression c).bind fun ⟨selector, after⟩ hs => ?_
  have harrow : c ≤ after.skipBlank :=
    Cursor.le_trans (Cursor.le_of_lt (inlineExpression_lt hs)) (Cursor.le_skipBlank after)
  dsimp only
  split
  · refine (checkSelector selector c).bind fun _ _ => ?_
    have hlist := Cursor.le_trans harrow (Cursor.le_trans (Cursor.le_advance 2 _)
      (Cursor.le_skipBlankInline _))
    refine ((h.variants _).mono hlist).bind fun ⟨list, stop⟩ _ => ?_
    dsimp only
    split
    · exact .ok c _
    · exact .fail harrow _
  · split
    · exact .fail (Cursor.le_refl c) _
    · exact .ok c _

/-- The body and its closing brace give up at the start of the body or behind it. -/
theorem closeBody (c : Cursor) : Grammar.GivesUpFrom c (closeBody deep [] c) :=
  (h.body c).bind fun ⟨_, stop⟩ hb =>
    ((givesUpFrom_expectChar _ _).mono (Cursor.le_trans (Cursor.le_of_lt (body_lt hb))
      (Cursor.le_skipBlank stop))).bind fun _ _ => .ok c _

/-! ## Entries -/

theorem assigned (c : Cursor) : Grammar.GivesUpFrom c (assigned deep c) :=
  ((givesUpFrom_expectChar _ _).mono (Cursor.le_skipBlankInline c)).bind fun start hs =>
    (h.pattern _).mono (Cursor.le_trans (Cursor.le_skipBlankInline c)
      (Cursor.le_trans (Cursor.le_of_lt (expectChar_lt hs)) (Cursor.le_skipBlankInline start)))

theorem oneAttribute (c : Cursor) : Grammar.GivesUpFrom c (oneAttribute deep c) := by
  refine (givesUpFrom_expectChar c _).bind fun start hs => ?_
  have hstart := Cursor.le_of_lt (expectChar_lt hs)
  refine ((givesUpFrom_identifier start).mono hstart).bind fun ⟨name, behind⟩ hi => ?_
  have hbehind := Cursor.le_trans hstart (Cursor.le_of_lt (identifier_lt hi))
  refine ((h.assigned behind).mono hbehind).bind fun ⟨value, stop⟩ hv => ?_
  dsimp only
  split
  · exact .ok c _
  · exact .fail (Cursor.le_trans hbehind (Cursor.le_of_lt (assigned_lt hv))) _

theorem attributesFrom (before : List Attribute) (c : Cursor) :
    Grammar.GivesUpFrom c (attributesFrom deep before c) := by
  fun_induction Grammar.attributesFrom deep before c with
  | case1 _ c _ failure ha => exact ((h.oneAttribute _).mono (Cursor.le_skipBlank c)).pass ha
  | case2 _ c _ _ _ ha ih =>
    exact ih.mono (Cursor.le_trans (Cursor.le_skipBlank c) (Cursor.le_of_lt (oneAttribute_lt ha)))
  | case3 _ c => exact .ok c _

theorem message (c : Cursor) : Grammar.GivesUpFrom c (message deep c) := by
  refine (givesUpFrom_identifier c).bind fun ⟨name, behind⟩ hi => ?_
  have hbehind := Cursor.le_of_lt (identifier_lt hi)
  refine ((h.assigned behind).mono hbehind).bind fun ⟨value, start⟩ hv => ?_
  have hstart := Cursor.le_trans hbehind (Cursor.le_of_lt (assigned_lt hv))
  refine ((h.attributesFrom [] start).mono hstart).bind fun ⟨list, stop⟩ _ => ?_
  dsimp only
  split
  · exact .fail (Cursor.le_refl c) _
  · exact .ok c _

theorem term (c : Cursor) : Grammar.GivesUpFrom c (term deep c) := by
  refine (givesUpFrom_expectChar c _).bind fun first hs => ?_
  have hfirst := Cursor.le_of_lt (expectChar_lt hs)
  refine ((givesUpFrom_identifier first).mono hfirst).bind fun ⟨name, behind⟩ hi => ?_
  have hbehind := Cursor.le_trans hfirst (Cursor.le_of_lt (identifier_lt hi))
  refine ((h.assigned behind).mono hbehind).bind fun ⟨value, start⟩ hv => ?_
  have hstart := Cursor.le_trans hbehind (Cursor.le_of_lt (assigned_lt hv))
  dsimp only
  split
  · exact .fail (Cursor.le_refl c) _
  · exact ((h.attributesFrom [] start).mono hstart).bind fun _ _ => .ok c _

theorem entry (c : Cursor) : Grammar.GivesUpFrom c (entry deep c) := by
  unfold Grammar.entry
  split
  · exact (givesUpFrom_comment c).wrap _
  split
  · exact (h.term c).wrap _
  split
  · exact (h.message c).wrap _
  · exact .error (Cursor.le_refl c) _ _

omit h in
/-- A missing line end is reported where it should stand. -/
theorem lineEnd (c : Cursor) : Grammar.GivesUpFrom c (lineEnd c) := by
  unfold Fluent.lineEnd
  split
  · exact .ok c _
  split
  · exact .ok c _
  · exact .fail (Cursor.le_refl c) _

theorem entryLine (c : Cursor) : Grammar.GivesUpFrom c ((entryLine deep).run c) :=
  (h.entry c).bind fun ⟨_, stop⟩ he =>
    ((lineEnd stop).mono (Cursor.le_of_lt (entry_lt he))).bind fun _ _ => .ok c _

end Nested.GivesUpFrom

/-! ## The levels -/

/-- **Every rule gives up where it starts or behind it**, on every level. -/
theorem nested_givesUpFrom (limit left : Nat) : (nested limit left).GivesUpFrom := by
  rw [nested_eq_plainNested]
  induction left with
  | zero => exact ⟨fun c => .fail (Cursor.le_refl c) _, fun c => .fail (Cursor.le_refl c) _⟩
  | succ left ih =>
    refine ⟨fun c => ?_, fun c => ih.callArguments c⟩
    exact (givesUpFrom_expectChar c _).bind fun start hs => (ih.closeBody _).mono
      (Cursor.le_trans (Cursor.le_of_lt (expectChar_lt hs)) (Cursor.le_skipBlank start))

end Fluent.Grammar
