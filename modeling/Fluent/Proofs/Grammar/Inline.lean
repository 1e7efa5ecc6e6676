/-
# Printed expressions are read again

Whatever a rule has read is printed as a text that the same rule reads as the same tree, wherever
that text stands, however far its lines are indented, and behind which other texts it stands.

* `Canonical` : the rules for braces and parentheses do so;
* `InlineReadable` : what can be read as an inline expression, and `InlinePrints` : it is printed as
  a text that is read again;
* `inlineExpression_ok`, `InlineReadable.prints` : what was read can be read, and what can be read
  is printed so if `Canonical` rules read what lies deeper.
-/
import Fluent.Proofs.Grammar.Braces
import Fluent.Proofs.Grammar.PatternReading
import Fluent.Proofs.Grammar.Strings

namespace Fluent.Grammar

/-- What the rules read is printed as a text that they read again. -/
structure Canonical (deep : Nested) : Prop where
  placeable : ∀ e, Reads (deep.placeable []) e →
    PrintsBack (deep.placeable []) e (e.print true)
  arguments : ∀ a, Reads deep.arguments a → PrintsBack deep.arguments a a.print

/-! ## Inline expressions -/

/-- What can be read as an inline expression. -/
def InlineReadable (deep : Nested) : Expression → Prop
  | .string s => IsString s
  | .number n => IsNumber n
  | .var id => IsName id.name.toList
  | .message id attr => IsName id.name.toList ∧ IsAccessor attr
  | .term id attr arguments => IsName id.name.toList ∧ IsAccessor attr ∧
      ∀ a, arguments = some a → Reads deep.arguments a
  | .function id arguments => IsName id.name.toList ∧ Reads deep.arguments arguments
  | .select _ => False
  | .placeable inner => Reads (deep.placeable []) inner

/-- What follows prolongs no inline expression. -/
structure ExpressionEnds (c : Cursor) : Prop where
  token : Stops (fun ch => isIdentifierChar ch || ch == '.') c.rest
  noCall : c.skipBlank.current ≠ some '('

namespace ExpressionEnds

variable {c : Cursor}

/-- A name is over where an expression ends. -/
theorem name (h : ExpressionEnds c) : Stops isIdentifierChar c.rest := by
  intro ch hch
  have := h.token ch hch
  rw [Bool.or_eq_false_iff] at this
  exact this.1

/-- An attribute accessor is over where an expression ends. -/
theorem accessor (h : ExpressionEnds c) (attr : Option Identifier) : AccessorEnds attr c.rest := by
  cases attr with
  | some id => exact h.name
  | none =>
    intro hpoint
    exact absurd (h.token '.' hpoint) (by decide)

/-- A number is over where an expression ends. -/
theorem number (h : ExpressionEnds c) (raw : List Char) : NumberEnds raw c.rest := by
  refine ⟨fun ch hch => ?_, fun _ => h.accessor none⟩
  have hname := h.name ch hch
  cases hd : ch.isDigit with
  | false => rfl
  | true =>
    rw [isIdentifierChar, Char.isAlphanum, hd] at hname
    simp at hname

end ExpressionEnds

/-- At something other than a blank no blanks are skipped. -/
theorem skipBlank_eq_self {c : Cursor} {ch : Char} (hc : c.current = some ch) (hs : ch ≠ ' ')
    (hf : ch ≠ '\n') : c.skipBlank = c := by
  refine Cursor.skipWhile_of_stops (Cursor.stops_of_current hc ?_)
  simp [hs, hf]

/-- Blanks in front are skipped with those that follow. -/
theorem skipBlank_of_passes {c mid : Cursor} {blank : List Char} (hp : c.Passes blank mid)
    (hb : Blank blank) : c.skipBlank = mid.skipBlank := by
  have hrest := Cursor.passes_skipWhile (fun ch => ch == ' ' || ch == '\n') mid
  refine Cursor.skipWhile_eq_iff.2 ⟨_, hp.append hrest, fun ch hch => ?_, stops_dropWhile _ _⟩
  rcases List.mem_append.1 hch with hch | hch
  · exact hb ch hch
  · exact Cursor.all_leading _ mid ch hch

/-- Blanks are skipped up to something else. -/
theorem skipBlank_eq_of_passes {c mid : Cursor} {blank : List Char} {ch : Char}
    (hp : c.Passes blank mid) (hb : Blank blank) (hc : mid.current = some ch) (hs : ch ≠ ' ')
    (hf : ch ≠ '\n') : c.skipBlank = mid := by
  rw [skipBlank_of_passes hp hb, skipBlank_eq_self hc hs hf]

/-- An arrow is a hyphen with a greater-than sign behind it. -/
theorem atArrow_iff {c : Cursor} :
    atArrow c = true ↔ c.current = some '-' ∧ c.peek 1 = some '>' := by
  rw [atArrow, Cursor.startsWith, List.isPrefixOf_iff_prefix, Cursor.current, Cursor.peek]
  rcases c.rest with _ | ⟨ch, _ | ⟨next, rest⟩⟩
  · simp
  · simp
  · rw [List.cons_prefix_cons, List.cons_prefix_cons, eq_comm, eq_comm (a := '>')]
    simp

/-- No arrow starts with anything but a minus. -/
theorem atArrow_eq_false {c : Cursor} {ch : Char} (hc : c.current = some ch) (hne : ch ≠ '-') :
    atArrow c = false := by
  rw [Bool.eq_false_iff]
  intro harrow
  exact hne (Option.some.inj (hc.symm.trans (atArrow_iff.1 harrow).1))

/-- A text stops, blanks and all, in front of something that fails the test. -/
theorem stops_of_skipBlank {test : Char → Bool} {c : Cursor} {ch : Char}
    (hc : c.skipBlank.current = some ch) (htest : test ch = false) (hspace : test ' ' = false)
    (hfeed : test '\n' = false) : Stops test c.rest := by
  intro x hx
  by_cases hs : x = ' '
  · rw [hs, hspace]
  by_cases hf : x = '\n'
  · rw [hf, hfeed]
  rw [skipBlank_eq_self hx hs hf] at hc
  rw [← Option.some.inj (hc.symm.trans hx), htest]

/-- In front of something that belongs to no token and opens no parenthesis an expression ends,
blanks or not. -/
theorem expressionEnds_of_skipBlank {c : Cursor} {ch : Char} (hc : c.skipBlank.current = some ch)
    (htoken : (isIdentifierChar ch || ch == '.') = false) (hopen : ch ≠ '(') :
    ExpressionEnds c := by
  refine ⟨stops_of_skipBlank hc htoken (by decide) (by decide), ?_⟩
  rw [hc]
  exact fun h => hopen (Option.some.inj h)

/-- What was read as an inline expression. -/
theorem inlineExpression_ok {deep : Nested} {c stop : Cursor} {e : Expression}
    (h : inlineExpression deep c = .ok (e, stop)) (hclean : '\r' ∉ c.rest) :
    InlineReadable deep e := by
  unfold inlineExpression at h
  split at h
  · obtain ⟨⟨n, last⟩, hn, h⟩ := bind_eq_ok.1 h
    obtain ⟨rfl, -⟩ := Prod.mk.inj (Except.ok.inj h)
    exact (number_eq_ok_iff.1 hn).1
  split at h
  · obtain ⟨⟨s, last⟩, hs, h⟩ := bind_eq_ok.1 h
    obtain ⟨rfl, -⟩ := Prod.mk.inj (Except.ok.inj h)
    exact (stringLiteral_eq_ok_iff.1 hs).1
  split at h
  · -- a term reference, with or without arguments
    obtain ⟨start, hstart, h⟩ := bind_eq_ok.1 h
    -- a name: of a function if a parenthesis follows, else of a message
    obtain ⟨⟨name, point⟩, hi, h⟩ := bind_eq_ok.1 h
    obtain ⟨⟨attr, last⟩, ha, h⟩ := bind_eq_ok.1 h
    have hname := (identifier_eq_ok_iff.1 hi).1
    have hattr := (attributeAccessor_eq_ok_iff.1 ha).1
    have hle : c ≤ last := Cursor.le_of_lt (Cursor.lt_trans (expectChar_lt hstart)
      (Cursor.lt_of_lt_of_le (identifier_lt hi) (attributeAccessor_le ha)))
    dsimp only at h
    split at h
    · obtain ⟨⟨arguments, close⟩, hargs, h⟩ := bind_eq_ok.1 h
      obtain ⟨rfl, -⟩ := Prod.mk.inj (Except.ok.inj h)
      refine ⟨hname, hattr, fun a ha => ?_⟩
      obtain rfl := Option.some.inj ha
      exact ⟨_, _, Cursor.not_mem_of_le (Cursor.le_trans hle (Cursor.le_skipBlank last)) hclean,
        hargs⟩
    · obtain ⟨rfl, -⟩ := Prod.mk.inj (Except.ok.inj h)
      exact ⟨hname, hattr, nofun⟩
  split at h
  · obtain ⟨⟨name, last⟩, hi, h⟩ := bind_eq_ok.1 h
    obtain ⟨rfl, -⟩ := Prod.mk.inj (Except.ok.inj h)
    exact (identifier_eq_ok_iff.1 hi).1
  split at h
  · obtain ⟨⟨inner, last⟩, hp, h⟩ := bind_eq_ok.1 h
    obtain ⟨rfl, -⟩ := Prod.mk.inj (Except.ok.inj h)
    exact ⟨c, last, hclean, hp⟩
  split at h
  · obtain ⟨⟨name, point⟩, hi, h⟩ := bind_eq_ok.1 h
    have hname := (identifier_eq_ok_iff.1 hi).1
    have hle := Cursor.le_of_lt (identifier_lt hi)
    dsimp only at h
    split at h
    · obtain ⟨⟨arguments, close⟩, hargs, h⟩ := bind_eq_ok.1 h
      obtain ⟨rfl, -⟩ := Prod.mk.inj (Except.ok.inj h)
      refine ⟨hname, _, _, ?_, hargs⟩
      exact Cursor.not_mem_of_le (Cursor.le_trans hle (Cursor.le_skipBlank point)) hclean
    · obtain ⟨⟨attr, last⟩, ha, h⟩ := bind_eq_ok.1 h
      obtain ⟨rfl, -⟩ := Prod.mk.inj (Except.ok.inj h)
      exact ⟨hname, (attributeAccessor_eq_ok_iff.1 ha).1⟩
  · cases h

/-! ## Tokens within expressions -/

theorem IsName.oneLine {name : List Char} (h : IsName name) : OneLine name :=
  oneLine_of_all h.chars (by decide) (by decide)

theorem IsAccessor.oneLine {attr : Option Identifier} (h : IsAccessor attr) :
    OneLine (printAccessor attr) := by
  cases attr with
  | none => exact oneLine_nil
  | some id => exact (h id rfl).oneLine.cons (by decide) (by decide)

theorem IsDigits.oneLine {run : List Char} (h : IsDigits run) : OneLine run :=
  oneLine_of_all h.2 (by decide) (by decide)

theorem IsNumeral.oneLine {raw : List Char} (h : IsNumeral raw) : OneLine raw := by
  obtain ⟨sign, whole, hsign, hwhole, hraw⟩ := h
  have hs : OneLine sign := by
    rcases hsign with rfl | rfl
    · exact oneLine_nil
    · exact oneLine_nil.cons (by decide) (by decide)
  rcases hraw with rfl | ⟨fraction, hfraction, rfl⟩
  · exact hs.append hwhole.oneLine
  · exact hs.append (hwhole.oneLine.append (hfraction.oneLine.cons (by decide) (by decide)))

/-- A name and an accessor are read one after the other. -/
theorem name_accessor {c stop : Cursor} {id : Identifier} {attr : Option Identifier}
    (hname : IsName id.name.toList) (hattr : IsAccessor attr)
    (hp : c.Passes (id.name.toList ++ printAccessor attr) stop)
    (hends : Stops isIdentifierChar stop.rest) (haccessor : AccessorEnds attr stop.rest) :
    ∃ point, identifier c = .ok (id.name, point) ∧ point.Passes (printAccessor attr) stop ∧
      attributeAccessor point = .ok (attr, stop) := by
  obtain ⟨point, hn, ha⟩ := hp.split
  have hpoint : Stops isIdentifierChar point.rest := by
    cases attr with
    | none =>
      obtain rfl := ha.eq_of_nil
      exact hends
    | some id =>
      rw [ha.1]
      exact stops_cons.2 (by decide)
  exact ⟨point, identifier_eq_ok_iff.2 ⟨hname, hn, hpoint⟩, ha,
    attributeAccessor_eq_ok_iff.2 ⟨hattr, ha, haccessor⟩⟩

/-- Behind a name, an accessor opens no parenthesis. -/
theorem accessor_noCall {point stop : Cursor} {attr : Option Identifier}
    (hp : point.Passes (printAccessor attr) stop) (hends : stop.skipBlank.current ≠ some '(') :
    point.skipBlank.current ≠ some '(' := by
  cases attr with
  | none =>
    obtain rfl := hp.eq_of_nil
    exact hends
  | some id =>
    have hc : point.current = some '.' := hp.current_cons
    rw [skipBlank_eq_self hc (by decide) (by decide), hc]
    decide

/-! ## Which expression starts where -/

/-- Where a name stands, a reference or a call starts. -/
theorem inlineExpression_name (deep : Nested) {c mid : Cursor} {name : List Char}
    (hname : IsName name) (hp : c.Passes name mid) :
    inlineExpression deep c = messageOrFunction deep c := by
  obtain ⟨ch, rest, rfl, hch⟩ := hname.cons
  have hc : c.current = some ch := hp.current_cons
  obtain ⟨hdigit, hminus⟩ := isIdentifierStart_not_digit hch
  have hne : ch ≠ '"' ∧ ch ≠ '$' ∧ ch ≠ '{' := by
    refine ⟨?_, ?_, ?_⟩ <;> rintro rfl <;> exact absurd hch (by decide)
  rw [inlineExpression, startsNumber_eq_false hc hminus hdigit, hc]
  simp [hne, hminus, hch]

/-- Where a minus and a name stand, a reference to a term starts. -/
theorem inlineExpression_minus (deep : Nested) {c mid : Cursor} {name : List Char}
    (hname : IsName name) (hp : c.Passes ('-' :: name) mid) :
    inlineExpression deep c = termReference deep c := by
  obtain ⟨ch, rest, rfl, hch⟩ := hname.cons
  rw [inlineExpression, startsNumber_minus hp.1 hch, hp.current_cons]
  simp

/-- Where a dollar sign stands, a reference to a variable starts. -/
theorem inlineExpression_dollar (deep : Nested) {c : Cursor} (hc : c.current = some '$') :
    inlineExpression deep c = variableReference c := by
  rw [inlineExpression, startsNumber_eq_false hc (by decide) (by decide), hc]
  simp

/-! ## Calls -/

/-- A name with arguments behind it and blanks is a call of a function. -/
theorem inlineExpression_function {deep : Nested} {c point stop : Cursor} {id : Identifier}
    {a : CallArguments} (hname : IsName id.name.toList) (hp : c.Passes id.name.toList point)
    (hopen : point.skipBlank.current = some '(')
    (hread : deep.arguments.run point.skipBlank = .ok (a, stop)) :
    inlineExpression deep c = .ok (.function id a, stop) := by
  have hstops : Stops isIdentifierChar point.rest :=
    stops_of_skipBlank hopen (by decide) (by decide) (by decide)
  rw [inlineExpression_name deep hname hp, messageOrFunction,
    identifier_eq_ok_iff.2 ⟨hname, hp, hstops⟩]
  show (if point.skipBlank.current = some '(' then _ else _) = _
  rw [if_pos hopen, hread]
  rfl

/-- A reference to a term with arguments behind it and blanks is a call of the term. -/
theorem inlineExpression_termCall {deep : Nested} {c last stop : Cursor} {id : Identifier}
    {attr : Option Identifier} {a : CallArguments} (hname : IsName id.name.toList)
    (hattr : IsAccessor attr) (hp : c.Passes ('-' :: (id.name.toList ++ printAccessor attr)) last)
    (hopen : last.skipBlank.current = some '(')
    (hread : deep.arguments.run last.skipBlank = .ok (a, stop)) :
    inlineExpression deep c = .ok (.term id attr (some a), stop) := by
  obtain ⟨start, hminus, hrest⟩ := hp.uncons
  obtain ⟨mid, hn, -⟩ := hrest.split
  -- the parenthesis, or a blank in front of it, ends the name and with it an attribute
  have hstops : Stops isIdentifierChar last.rest :=
    stops_of_skipBlank hopen (by decide) (by decide) (by decide)
  have haccessor : AccessorEnds attr last.rest := by
    cases attr with
    | none =>
      intro hpoint
      rw [skipBlank_eq_self hpoint (by decide) (by decide)] at hopen
      exact absurd (Option.some.inj (hopen.symm.trans hpoint)) (by decide)
    | some id => exact hstops
  obtain ⟨point, hi, hpoint, ha⟩ := name_accessor hname hattr hrest hstops haccessor
  rw [inlineExpression_minus deep hname (hminus.append hn), termReference,
    expectChar_eq_ok_iff.2 hminus]
  show (identifier start >>= _) = _
  rw [hi]
  show (attributeAccessor point >>= _) = _
  rw [ha]
  show (if last.skipBlank.current = some '(' then _ else _) = _
  rw [if_pos hopen, hread]
  rfl

/-! ## Reading printed expressions -/

/-- An inline expression is printed as a text that is read again. -/
structure InlinePrints (deep : Nested) (e : Expression) : Prop where
  noReturn : '\r' ∉ e.print false
  endsLine : endsLine false (e.print false) = false
  reads : ∀ n {c stop : Cursor}, c.Passes (indentBy n false (e.print false)) stop →
    ExpressionEnds stop → inlineExpression deep c = .ok (e, stop)

/-- What is printed on one line does not depend on indentation. -/
theorem inlinePrints_of_oneLine {deep : Nested} {e : Expression} (hline : OneLine (e.print false))
    (hreads : ∀ {c stop : Cursor}, c.Passes (e.print false) stop → ExpressionEnds stop →
      inlineExpression deep c = .ok (e, stop)) : InlinePrints deep e where
  noReturn := hline.2
  endsLine := endsLine_of_not_mem hline.1
  reads n c stop hp hends := by
    rw [indentBy_of_not_mem n hline.1] at hp
    exact hreads hp hends

/-- Arguments of a call end behind their parenthesis. -/
theorem arguments_print_eq (a : CallArguments) : ∃ text, a.print = '(' :: (text ++ [')']) := by
  obtain ⟨positional, named⟩ := a
  rw [CallArguments.print]
  exact ⟨_, rfl⟩

/-- Reading the arguments behind a name. -/
theorem arguments_of_passes {deep : Nested} (hdeep : Canonical deep) {a : CallArguments}
    (ha : Reads deep.arguments a) {n : Nat} {c stop : Cursor}
    (hp : c.Passes (indentBy n false a.print) stop) :
    c.current = some '(' ∧ c.skipBlank = c ∧ deep.arguments.run c = .ok (a, stop) := by
  obtain ⟨text, htext⟩ := arguments_print_eq a
  have hc : c.current = some '(' := by
    rw [htext, indentBy_cons n (by decide)] at hp
    exact hp.current_cons
  exact ⟨hc, skipBlank_eq_self hc (by decide) (by decide), (hdeep.arguments a ha).reads n hp⟩

/-- Printed arguments do not end a line. -/
theorem endsLine_arguments_print (atLineStart : Bool) (a : CallArguments) :
    endsLine atLineStart a.print = false := by
  obtain ⟨text, htext⟩ := arguments_print_eq a
  rw [htext, endsLine_cons, endsLine_append]
  rfl

/-- One line and arguments behind it. -/
theorem indentBy_call {line : List Char} (hline : OneLine line) (n : Nat) (a : CallArguments) :
    indentBy n false (line ++ a.print) = line ++ indentBy n false a.print := by
  rw [indentBy_append, indentBy_of_not_mem n hline.1, endsLine_of_not_mem hline.1]

namespace InlineReadable

variable {deep : Nested}

theorem string_prints {s : StringLiteral} (hs : IsString s) : InlinePrints deep (.string s) := by
  have hprint : (Expression.string s).print false = s.print := by
    rw [Expression.print]
    rfl
  refine inlinePrints_of_oneLine (hprint ▸ hs.oneLine) fun {c stop} hp _ => ?_
  rw [hprint] at hp
  have hc : c.current = some '"' := hp.current_cons
  rw [inlineExpression, startsNumber_eq_false hc (by decide) (by decide), if_neg (by decide),
    if_pos hc, hs.reads hp]
  rfl

theorem number_prints {n : NumberLiteral} (hn : IsNumber n) : InlinePrints deep (.number n) := by
  have hprint : (Expression.number n).print false = n.raw.toList := by
    rw [Expression.print]
    rfl
  refine inlinePrints_of_oneLine (hprint ▸ hn.numeral.oneLine) fun {c stop} hp hends => ?_
  rw [hprint] at hp
  have hread : number c = .ok (n, stop) := number_eq_ok_iff.2 ⟨hn, hp, hends.number _⟩
  rw [inlineExpression, if_pos (startsNumber_of_numeral hn.numeral hp), hread]
  rfl

theorem var_prints {id : Identifier} (hname : IsName id.name.toList) :
    InlinePrints deep (.var id) := by
  have hprint : (Expression.var id).print false = '$' :: id.name.toList := by
    rw [Expression.print]
    rfl
  refine inlinePrints_of_oneLine
    (hprint ▸ hname.oneLine.cons (by decide) (by decide)) fun {c stop} hp hends => ?_
  rw [hprint] at hp
  obtain ⟨mid, hdollar, hn⟩ := hp.uncons
  have hread : identifier c.bump = .ok (id.name, stop) := by
    rw [Cursor.bump_eq hdollar]
    exact identifier_eq_ok_iff.2 ⟨hname, hn, hends.name⟩
  rw [inlineExpression_dollar deep hdollar.current_cons, variableReference, hread]
  rfl

theorem message_prints {id : Identifier} {attr : Option Identifier}
    (hname : IsName id.name.toList) (hattr : IsAccessor attr) :
    InlinePrints deep (.message id attr) := by
  have hprint : (Expression.message id attr).print false =
      id.name.toList ++ printAccessor attr := by
    rw [Expression.print]
    rfl
  refine inlinePrints_of_oneLine
    (hprint ▸ hname.oneLine.append hattr.oneLine) fun {c stop} hp hends => ?_
  rw [hprint] at hp
  obtain ⟨mid, hn, -⟩ := hp.split
  obtain ⟨point, hi, hpoint, ha⟩ :=
    name_accessor hname hattr hp hends.name (hends.accessor attr)
  rw [inlineExpression_name deep hname hn, messageOrFunction, hi]
  show (if point.skipBlank.current = some '(' then _ else _) = _
  rw [if_neg (accessor_noCall hpoint hends.noCall), ha]
  rfl

theorem function_prints (hdeep : Canonical deep) {id : Identifier} {arguments : CallArguments}
    (hname : IsName id.name.toList) (hargs : Reads deep.arguments arguments) :
    InlinePrints deep (.function id arguments) := by
  have hprint : (Expression.function id arguments).print false =
      id.name.toList ++ arguments.print := by
    rw [Expression.print]
    rfl
  constructor
  · rw [hprint]
    exact fun hmem => (List.mem_append.1 hmem).elim hname.oneLine.2
      (hdeep.arguments _ hargs).noReturn
  · rw [hprint, endsLine_append, endsLine_arguments_print]
  · intro n c stop hp _
    rw [hprint, indentBy_call hname.oneLine] at hp
    obtain ⟨point, hn, hcall⟩ := hp.split
    obtain ⟨hc, hskip, hread⟩ := arguments_of_passes hdeep hargs hcall
    rw [← hskip] at hc hread
    exact inlineExpression_function hname hn hc hread

theorem term_prints {id : Identifier} {attr : Option Identifier}
    (hname : IsName id.name.toList) (hattr : IsAccessor attr) :
    InlinePrints deep (.term id attr none) := by
  have hprint : (Expression.term id attr none).print false =
      '-' :: (id.name.toList ++ printAccessor attr) := by
    rw [Expression.print]
    rfl
  refine inlinePrints_of_oneLine
    (hprint ▸ (hname.oneLine.append hattr.oneLine).cons (by decide) (by decide))
    fun {c stop} hp hends => ?_
  rw [hprint] at hp
  obtain ⟨start, hminus, hrest⟩ := hp.uncons
  obtain ⟨mid, hn, -⟩ := hrest.split
  obtain ⟨point, hi, hpoint, ha⟩ :=
    name_accessor hname hattr hrest hends.name (hends.accessor attr)
  rw [inlineExpression_minus deep hname (hminus.append hn), termReference,
    expectChar_eq_ok_iff.2 hminus]
  show (identifier start >>= _) = _
  rw [hi]
  show (attributeAccessor point >>= _) = _
  rw [ha]
  exact if_neg hends.noCall

theorem termCall_prints (hdeep : Canonical deep) {id : Identifier} {attr : Option Identifier}
    {arguments : CallArguments} (hname : IsName id.name.toList) (hattr : IsAccessor attr)
    (hargs : Reads deep.arguments arguments) :
    InlinePrints deep (.term id attr (some arguments)) := by
  have hprint : (Expression.term id attr (some arguments)).print false =
      '-' :: (id.name.toList ++ printAccessor attr) ++ arguments.print := by
    rw [Expression.print]
    rfl
  have hline : OneLine ('-' :: (id.name.toList ++ printAccessor attr)) :=
    (hname.oneLine.append hattr.oneLine).cons (by decide) (by decide)
  constructor
  · rw [hprint]
    exact fun hmem => (List.mem_append.1 hmem).elim hline.2 (hdeep.arguments _ hargs).noReturn
  · rw [hprint, endsLine_append, endsLine_arguments_print]
  · intro n c stop hp _
    rw [hprint, indentBy_call hline] at hp
    obtain ⟨last, hhead, hcall⟩ := hp.split
    obtain ⟨hc, hskip, hread⟩ := arguments_of_passes hdeep hargs hcall
    rw [← hskip] at hc hread
    exact inlineExpression_termCall hname hattr hhead hc hread

theorem placeable_prints (hdeep : Canonical deep) {inner : Expression}
    (hinner : Reads (deep.placeable []) inner) : InlinePrints deep (.placeable inner) := by
  have hprint : (Expression.placeable inner).print false = inner.print true := by
    rw [Expression.print]
    rfl
  obtain ⟨hr, hread⟩ := hdeep.placeable inner hinner
  constructor
  · rw [hprint]
    exact hr
  · rw [hprint]
    exact endsLine_print_true false inner
  · intro n c stop hp _
    rw [hprint] at hp
    have hc : c.current = some '{' := by
      obtain ⟨text, htext⟩ := print_true_eq inner
      rw [htext, indentBy_cons n (by decide)] at hp
      exact hp.current_cons
    rw [inlineExpression_brace deep hc, hread n hp]
    rfl

/-- Every inline expression that can be read is printed as a text that is read again. -/
theorem prints (hdeep : Canonical deep) {e : Expression} (he : InlineReadable deep e) :
    InlinePrints deep e := by
  cases e with
  | string s => exact string_prints he
  | number n => exact number_prints he
  | var id => exact var_prints he
  | message id attr => exact message_prints he.1 he.2
  | term id attr arguments =>
    cases arguments with
    | none => exact term_prints he.1 he.2.1
    | some a => exact termCall_prints hdeep he.1 he.2.1 (he.2.2 a rfl)
  | function id arguments => exact function_prints hdeep he.1 he.2
  | select selection => exact he.elim
  | placeable inner => exact placeable_prints hdeep he

end InlineReadable

end Fluent.Grammar
