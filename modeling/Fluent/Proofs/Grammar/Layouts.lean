/-
# Expressions with blanks between their parts

Blanks may stand between the parts of an inline expression: inside braces and parentheses, in front
of the parenthesis of a call, and around commas and colons.  The last argument of a call may have a
comma behind it.  However an expression is laid out so, it is read again.

* `Expression.IsInline` : the expressions that this is about;
* `Expression.Layout` : the texts that write an expression;
* `inlineExpression_of_layout` : each of them is read as the expression, if the levels suffice;
* `placeable_of_layout` : so is each text that writes it between braces.
-/
import Fluent.Proofs.Grammar.Placeables
import Fluent.Proofs.Grammar.Spelling
import Fluent.Tree.Nesting

namespace Fluent

open Grammar

/-! ## Valid inline expressions -/

/-- The value is that of the text, and the text is not too long. -/
def Literal.IsValid : Literal → Prop
  | .string s => s.Checked
  | .number n => n.Checked ∧ n.raw.toList.length ≤ maxNumberLength

/-- The name and the value are valid. -/
structure NamedArgument.IsValid (a : NamedArgument) : Prop where
  name : IsName a.name.name.toList
  value : a.value.IsValid

mutual

/-- The expression holds no selections, its names and literals are valid, no name of an argument is
given twice, and no placeable directly holds the attribute of a term. -/
def Expression.IsInline : Expression → Prop
  | .string s => (Literal.string s).IsValid
  | .number n => (Literal.number n).IsValid
  | .var id => IsName id.name.toList
  | .message id attr => IsName id.name.toList ∧ IsAccessor attr
  | .term id attr none => IsName id.name.toList ∧ IsAccessor attr
  | .term id attr (some arguments) =>
    IsName id.name.toList ∧ IsAccessor attr ∧ arguments.IsInline
  | .function id arguments => IsName id.name.toList ∧ arguments.IsInline
  | .select _ => False
  | .placeable inner => (∀ id attr arguments, inner ≠ .term id (some attr) arguments) ∧
      inner.IsInline

/-- So do call arguments. -/
def CallArguments.IsInline : CallArguments → Prop
  | ⟨positional, named⟩ => (CallArguments.mk positional named).Checked ∧
      argumentsInline positional ∧ ∀ a ∈ named, a.IsValid

/-- So do arguments given by position. -/
def argumentsInline : List Expression → Prop
  | [] => True
  | e :: es => e.IsInline ∧ argumentsInline es

end

/-! ## Layouts -/

/-- The text writes the argument, with blanks around the colon. -/
def NamedArgument.Layout (a : NamedArgument) (text : List Char) : Prop :=
  ∃ before after, Blank before ∧ Blank after ∧
    text = a.name.name.toList ++ (before ++ ':' :: (after ++ a.value.print))

mutual

/-- The text writes the expression. -/
def Expression.Layout : Expression → List Char → Prop
  | .string s, text => text = s.print
  | .number n, text => text = n.raw.toList
  | .var id, text => text = '$' :: id.name.toList
  | .message id attr, text => text = id.name.toList ++ printAccessor attr
  | .term id attr none, text => text = '-' :: (id.name.toList ++ printAccessor attr)
  | .term id attr (some arguments), text => ∃ gap call, Blank gap ∧ arguments.Layout call ∧
      text = '-' :: (id.name.toList ++ printAccessor attr) ++ (gap ++ call)
  | .function id arguments, text => ∃ gap call, Blank gap ∧ arguments.Layout call ∧
      text = id.name.toList ++ (gap ++ call)
  | .select _, _ => False
  | .placeable inner, text => ∃ before held after, Blank before ∧ inner.Layout held ∧
      Blank after ∧ text = '{' :: (before ++ (held ++ (after ++ ['}'])))

/-- The text writes the arguments with their parentheses: those given by position and then those
given by name, separated by commas. -/
def CallArguments.Layout : CallArguments → List Char → Prop
  | ⟨positional, named⟩, text => ∃ gap texts more inside, Blank gap ∧
      argumentsLayout positional texts ∧ List.Forall₂ NamedArgument.Layout named more ∧
      CommaSeparated (texts ++ more) inside ∧ text = '(' :: (gap ++ (inside ++ [')']))

/-- The texts write the arguments one by one. -/
def argumentsLayout : List Expression → List (List Char) → Prop
  | [], texts => texts = []
  | e :: es, texts => ∃ text rest, e.Layout text ∧ argumentsLayout es rest ∧ texts = text :: rest

end

/-- The text of arguments starts with their parenthesis. -/
theorem CallArguments.Layout.cons {a : CallArguments} {text : List Char} (h : a.Layout text) :
    ∃ rest, text = '(' :: rest := by
  obtain ⟨positional, named⟩ := a
  obtain ⟨gap, texts, more, inside, -, -, -, -, rfl⟩ := h
  exact ⟨_, rfl⟩

namespace Grammar

/-! ## Valid literals -/

/-- A text that is split into digits is a number. -/
theorem isNumeral_of_splitNumber? {raw : List Char} {found : Bool × List Char × List Char}
    (h : splitNumber? raw = some found) : IsNumeral raw := by
  have hdigits : ∀ run, allDigits run = true → IsDigits run := by simp [allDigits, IsDigits]
  obtain ⟨sign, unsigned, hsign, hraw, hunsigned⟩ : ∃ sign unsigned,
      (sign = [] ∨ sign = ['-']) ∧ raw = sign ++ unsigned ∧
        (if raw.head? == some '-' then raw.tail else raw) = unsigned := by
    by_cases hminus : raw.head? = some '-'
    · obtain ⟨rest, rfl⟩ := List.head?_eq_some_iff.1 hminus
      exact ⟨_, _, .inr rfl, rfl, rfl⟩
    · exact ⟨_, _, .inl rfl, rfl, by simp [hminus]⟩
  unfold splitNumber? at h
  dsimp only at h
  rw [hunsigned] at h
  have hparts := List.takeWhile_append_dropWhile (p := (· != '.')) (l := unsigned)
  split at h
  · rename_i hnil
    rw [hnil, List.append_nil] at hparts
    split at h
    · rename_i hwhole
      rw [hparts] at hwhole
      exact ⟨sign, unsigned, hsign, hdigits _ hwhole, .inl hraw⟩
    · cases h
  · rename_i point fraction hcons
    rw [hcons] at hparts
    split at h
    · rename_i hboth
      obtain ⟨hwhole, hfraction⟩ := Bool.and_eq_true_iff.1 hboth
      -- what ends the digits in front is the point
      have hpoint : point = '.' := by
        have hhead := List.head?_dropWhile_not (· != '.') unsigned
        rw [hcons] at hhead
        simpa using hhead
      subst hpoint
      exact ⟨sign, _, hsign, hdigits _ hwhole, .inr ⟨fraction, hdigits _ hfraction, by
        rw [hraw, hparts]⟩⟩
    · cases h

/-- Valid literals are read wherever they stand. -/
theorem isLiteral_of_isValid {l : Literal} (h : l.IsValid) : IsLiteral l := by
  cases l with
  | string s => exact isString_of_checked h
  | number n =>
    obtain ⟨hchecked, hlength⟩ := h
    refine ⟨?_, hlength, hchecked⟩
    have hraw := hchecked
    unfold NumberLiteral.Checked NumberLiteral.ofRaw at hraw
    split at hraw
    · cases hraw
    · rename_i hsplit
      exact isNumeral_of_splitNumber? hsplit

/-! ## Reading expressions -/

/-- The text is read as the expression, in front of what ends it. -/
def InlineReadAs (deep : Nested) (e : Expression) (text : List Char) : Prop :=
  ∀ ⦃c stop : Cursor⦄, c.Passes text stop → ExpressionEnds stop →
    inlineExpression deep c = .ok (e, stop)

/-- The text of arguments is read as them. -/
def CallReadAs (deep : Nested) (a : CallArguments) (text : List Char) : Prop :=
  ∀ ⦃c stop : Cursor⦄, c.Passes text stop → deep.arguments.run c = .ok (a, stop)

section Parts

variable {deep : Nested}

/-- An expression is read from its printed text. -/
theorem InlinePrints.readAs {e : Expression} {text : List Char} (h : InlinePrints deep e)
    (htext : text = e.print false) : InlineReadAs deep e text := by
  intro c stop hp hends
  rw [htext] at hp
  exact h.reads 0 (by rwa [indentBy_zero]) hends

/-- An expression is also read as an argument by position. -/
theorem InlineReadAs.positional {e : Expression} {text : List Char}
    (h : InlineReadAs deep e text) : ReadAs deep (.positional e) text := by
  intro c stop hp hends
  exact argument_positional (h hp hends.expressionEnds) hends.ne_colon

/-- Blanks may stand around the colon of an argument by name. -/
theorem readAs_of_namedLayout {named : List NamedArgument} {texts : List (List Char)}
    (hvalid : ∀ a ∈ named, a.IsValid) (h : List.Forall₂ NamedArgument.Layout named texts) :
    List.Forall₂ (ReadAs deep) (named.map .named) texts := by
  induction h with
  | nil => exact .nil
  | cons hlaid _ ih =>
    obtain ⟨before, after, hbefore, hafter, rfl⟩ := hlaid
    have hfirst := hvalid _ List.mem_cons_self
    exact .cons (readAs_named hfirst.name (isLiteral_of_isValid hfirst.value) hbefore hafter)
      (ih fun a ha => hvalid a (List.mem_cons_of_mem _ ha))

/-- Blanks may stand in front of the arguments of a function. -/
theorem CallReadAs.function {id : Identifier} {a : CallArguments} {gap text : List Char}
    (h : CallReadAs deep a text) (hopen : ∃ rest, text = '(' :: rest)
    (hname : IsName id.name.toList) (hgap : Blank gap) :
    InlineReadAs deep (.function id a) (id.name.toList ++ (gap ++ text)) := by
  intro c stop hp _
  obtain ⟨rest, rfl⟩ := hopen
  obtain ⟨point, hn, hp⟩ := hp.split
  obtain ⟨start, hblank, hcall⟩ := hp.split
  have hskip : point.skipBlank = start :=
    skipBlank_eq_of_passes hblank hgap hcall.current_cons (by decide) (by decide)
  exact inlineExpression_function hname hn (hskip ▸ hcall.current_cons) (hskip ▸ h hcall)

/-- Blanks may stand in front of the arguments of a term. -/
theorem CallReadAs.term {id : Identifier} {attr : Option Identifier} {a : CallArguments}
    {gap text : List Char} (h : CallReadAs deep a text) (hopen : ∃ rest, text = '(' :: rest)
    (hname : IsName id.name.toList) (hattr : IsAccessor attr) (hgap : Blank gap) :
    InlineReadAs deep (.term id attr (some a))
      ('-' :: (id.name.toList ++ printAccessor attr) ++ (gap ++ text)) := by
  intro c stop hp _
  obtain ⟨rest, rfl⟩ := hopen
  obtain ⟨last, hhead, hp⟩ := hp.split
  obtain ⟨start, hblank, hcall⟩ := hp.split
  have hskip : last.skipBlank = start :=
    skipBlank_eq_of_passes hblank hgap hcall.current_cons (by decide) (by decide)
  exact inlineExpression_termCall hname hattr hhead (hskip ▸ hcall.current_cons)
    (hskip ▸ h hcall)

end Parts

/-! ## Reading with levels to spare -/

/-- Blanks may stand inside the braces of a placeable. -/
theorem InlineReadAs.placeable {limit left : Nat} {e : Expression} {before held after : List Char}
    (h : InlineReadAs (nested limit left) e held)
    (hterm : ∀ id attr arguments, e ≠ .term id (some attr) arguments) (hbefore : Blank before)
    (hafter : Blank after) {c stop : Cursor}
    (hp : c.Passes ('{' :: (before ++ (held ++ (after ++ ['}'])))) stop) :
    ((nested limit (left + 1)).placeable []).run c = .ok (e, stop) := by
  obtain ⟨blank, hopen, hp⟩ := hp.uncons
  obtain ⟨start, hblank, hp⟩ := hp.split
  obtain ⟨last, hheld, hp⟩ := hp.split
  obtain ⟨close, hblank', hclose⟩ := hp.split
  obtain ⟨ch, rest, rfl, hs, hf, -⟩ := h.positional.cons
  have hstart : blank.skipBlank = start :=
    skipBlank_eq_of_passes hblank hbefore hheld.current_cons hs hf
  have hskip : last.skipBlank = close :=
    skipBlank_eq_of_passes hblank' hafter hclose.current_cons (by decide) (by decide)
  have hbrace : last.skipBlank.current = some '}' := hskip ▸ hclose.current_cons
  have hread := h hheld (expressionEnds_of_skipBlank hbrace (by decide) (by decide))
  rw [nested_eq_plainNested]
  show (expectChar c '{' >>= fun opened => closeBody (plainNested limit left) [] opened.skipBlank)
    = _
  rw [expectChar_eq_ok_iff.2 hopen, ← nested_eq_plainNested]
  show closeBody (nested limit left) [] blank.skipBlank = _
  rw [hstart]
  exact closeBody_of_body (body_of_inline hread hterm hbrace) (hskip ▸ hclose)

mutual

/-- **However an inline expression is laid out, it is read again**, if there are as many levels as
it is nested. -/
theorem inlineExpression_of_layout (limit : Nat) : ∀ (e : Expression) {text : List Char}
    {left : Nat}, e.IsInline → e.Layout text → e.nesting ≤ left →
      InlineReadAs (nested limit left) e text
  | .string s, text, left, hvalid, htext, _ =>
    have hs : IsString s := isLiteral_of_isValid hvalid
    (InlineReadable.string_prints hs).readAs htext
  | .number n, text, left, hvalid, htext, _ =>
    have hn : IsNumber n := isLiteral_of_isValid hvalid
    (InlineReadable.number_prints hn).readAs htext
  | .var id, text, left, hname, htext, _ =>
    (InlineReadable.var_prints hname).readAs htext
  | .message id attr, text, left, ⟨hname, hattr⟩, htext, _ =>
    (InlineReadable.message_prints hname hattr).readAs htext
  | .term id attr none, text, left, ⟨hname, hattr⟩, htext, _ =>
    (InlineReadable.term_prints hname hattr).readAs htext
  | .term id attr (some arguments), text, left, ⟨hname, hattr, hvalid⟩, htext, hlevels => by
    obtain ⟨gap, call, hgap, hcall, rfl⟩ := htext
    have hread := arguments_of_layout limit arguments hvalid hcall hlevels
    exact hread.term hcall.cons hname hattr hgap
  | .function id arguments, text, left, ⟨hname, hvalid⟩, htext, hlevels => by
    obtain ⟨gap, call, hgap, hcall, rfl⟩ := htext
    have hread := arguments_of_layout limit arguments hvalid hcall hlevels
    exact hread.function hcall.cons hname hgap
  | .placeable inner, text, left + 1, ⟨hterm, hvalid⟩, htext, hlevels => by
    obtain ⟨before, held, after, hbefore, hheld, hafter, rfl⟩ := htext
    have hread := inlineExpression_of_layout limit inner hvalid hheld
      (Nat.le_of_succ_le_succ hlevels)
    intro c stop hp _
    rw [inlineExpression_brace _ hp.current_cons, hread.placeable hterm hbefore hafter hp]
    rfl

/-- So are the arguments of a call. -/
theorem arguments_of_layout (limit : Nat) : ∀ (a : CallArguments) {text : List Char}
    {left : Nat}, a.IsInline → a.Layout text → a.nesting ≤ left →
      CallReadAs (nested limit left) a text
  | ⟨positional, named⟩, text, left + 1, ⟨hchecked, hpositional, hnamed⟩, htext, hlevels => by
    obtain ⟨gap, texts, more, inside, hgap, hlaid, hmore, hinside, rfl⟩ := htext
    have hread := readAs_of_layout limit positional hpositional hlaid
      (Nat.le_of_succ_le_succ hlevels)
    intro c stop hp
    exact arguments_of_separated hchecked hinside
      (List.rel_append hread (readAs_of_namedLayout hnamed hmore)) hgap hp

/-- So is each argument given by position. -/
theorem readAs_of_layout (limit : Nat) : ∀ (es : List Expression) {texts : List (List Char)}
    {left : Nat}, argumentsInline es → argumentsLayout es texts → argumentsNesting es ≤ left →
      List.Forall₂ (ReadAs (nested limit left)) (es.map .positional) texts
  | [], texts, left, _, htexts, _ => by
    obtain rfl : texts = [] := htexts
    exact .nil
  | e :: es, texts, left, ⟨hvalid, hrest⟩, htexts, hlevels => by
    obtain ⟨text, rest, hlaid, hlaids, rfl⟩ := htexts
    obtain ⟨hfirst, hothers⟩ := Nat.max_le.1 hlevels
    exact .cons (inlineExpression_of_layout limit e hvalid hlaid hfirst).positional
      (readAs_of_layout limit es hrest hlaids hothers)

end

/-- **However a placeable is laid out, it is read again.**  Each text that writes a valid inline
expression between braces is read as that expression, if it may stand there, up to the last brace
and whatever follows it, if there are as many levels as the placeable is nested. -/
theorem placeable_of_layout {allowance : Allowance} {e : Expression} {text : List Char}
    (hvalid : (Expression.placeable e).IsInline) (htext : (Expression.placeable e).Layout text)
    (hlevels : (Expression.placeable e).nesting ≤ allowance.left) (rest : List Char) (pos : Nat) :
    (allowance.rules.placeable []).run ⟨text ++ rest, pos⟩ =
      .ok (e, ⟨rest, pos + utf8Length text⟩) := by
  obtain ⟨limit, left⟩ := allowance
  obtain ⟨hterm, hinline⟩ := hvalid
  obtain ⟨before, held, after, hbefore, hheld, hafter, rfl⟩ := htext
  cases left with
  | zero => exact absurd hlevels (Nat.not_succ_le_zero _)
  | succ left =>
    have hread := inlineExpression_of_layout limit e hinline hheld
      (Nat.le_of_succ_le_succ hlevels)
    exact hread.placeable hterm hbefore hafter ⟨rfl, rfl⟩

/-- Braces in braces, the attribute of a term as an argument, line feeds around the parts, and a
comma behind the last argument. -/
theorem placeable_of_layout_join :
    ((Allowance.full 4).rules.placeable []).run
      ⟨"\x7b JOIN (\n-brand.case ,\n\x7b \x7b-3\x7d\x7d, by :\n\", \" , )\x7d".toList ++ ['('], 2⟩
      = .ok (.function ⟨"JOIN"⟩
        ⟨[.term ⟨"brand"⟩ (some ⟨"case"⟩) none, .placeable (.placeable (.number
            ⟨⟨3, 0, true, by decide, by decide, by decide⟩, "-3"⟩))],
          [⟨⟨"by"⟩, .string ⟨", ", ", "⟩⟩]⟩, ⟨['('], 48⟩) := by
  have hspace : Blank [' '] := by simp [Blank, isBlank]
  have hfeed : Blank ['\n'] := by simp [Blank, isBlank]
  have hjoin : IsName "JOIN".toList := by decide
  have hbrand : IsName "brand".toList := by decide
  have hcase : IsName "case".toList := by decide
  have hby : IsName "by".toList := by decide
  refine placeable_of_layout ?valid ?layout (by decide) ['('] 2
  case valid =>
    have hattr : IsAccessor (some ⟨"case"⟩) := fun id hid => Option.some.inj hid ▸ hcase
    have hcomma : StringLiteral.Checked ⟨", ", ", "⟩ :=
      ofRaw_eq_ok_iff.2 ⟨rfl, spells_escapeText [',', ' '], by decide⟩
    refine ⟨by simp, hjoin, by simp [CallArguments.Checked], ⟨⟨hbrand, hattr⟩,
      ⟨by simp, by simp, rfl, by decide⟩, trivial⟩, fun a ha => ?_⟩
    obtain rfl := List.mem_singleton.1 ha
    exact ⟨hby, hcomma⟩
  case layout =>
    refine ⟨[' '], _, [], hspace, ⟨[' '], _, hspace, ⟨['\n'], ["-brand.case".toList,
      "\x7b \x7b-3\x7d\x7d".toList], ["by :\n\", \"".toList], _, hfeed, ?positional, ?named,
      .cons hspace hfeed (.cons blank_nil hspace (.cons hspace hspace .nil)), rfl⟩, rfl⟩, blank_nil,
      rfl⟩
    case positional =>
      exact ⟨_, _, rfl, ⟨_, _, ⟨[' '], _, [], hspace, ⟨[], _, [], blank_nil, rfl, blank_nil, rfl⟩,
        blank_nil, rfl⟩, rfl, rfl⟩, rfl⟩
    case named => exact .cons ⟨[' '], ['\n'], hspace, hfeed, rfl⟩ .nil

end Grammar

end Fluent
