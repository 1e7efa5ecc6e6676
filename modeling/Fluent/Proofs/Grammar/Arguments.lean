/-
# Printed arguments are read again

The arguments of a call, with the commas between them and the parentheses around them.

* `arguments_ok` : what was read as arguments;
* `CommaSeparated` : texts with commas between them, and blanks around the commas;
* `arguments_of_separated` : arguments whose texts are so separated are read;
* `CallReadable.reads` : what was read is printed as a text that is read again.
-/
import Mathlib.Data.List.Forall2
import Fluent.Proofs.Grammar.Inline
import Fluent.Proofs.Tree.Constructors

namespace Fluent.Grammar

/-! ## Single arguments -/

/-- How an argument is printed. -/
def Argument.print : Argument → List Char
  | .positional e => e.print false
  | .named a => a.print

/-- What can be read as an argument. -/
def ArgumentReadable (deep : Nested) : Argument → Prop
  | .positional e => InlineReadable deep e
  | .named a => IsName a.name.name.toList ∧ IsLiteral a.value

/-- What was read as an argument. -/
theorem argument_ok {deep : Nested} {c stop : Cursor} {given : Argument}
    (h : argument deep c = .ok (given, stop)) (hclean : '\r' ∉ c.rest) :
    ArgumentReadable deep given := by
  obtain ⟨⟨e, last⟩, he, h⟩ := bind_eq_ok.1 h
  have hread := inlineExpression_ok he hclean
  dsimp only at h
  split at h
  · split at h
    · obtain ⟨⟨value, close⟩, hl, h⟩ := bind_eq_ok.1 h
      obtain ⟨rfl, -⟩ := Prod.mk.inj (Except.ok.inj h)
      exact ⟨hread.1, (literal_eq_ok_iff.1 hl).1⟩
    · obtain ⟨rfl, -⟩ := Prod.mk.inj (Except.ok.inj h)
      exact hread
  · obtain ⟨rfl, -⟩ := Prod.mk.inj (Except.ok.inj h)
    exact hread

/-- An argument ends at a comma or at the closing parenthesis. -/
def ArgumentEnds (c : Cursor) : Prop :=
  c.current = some ',' ∨ c.current = some ')'

namespace ArgumentEnds

variable {c : Cursor}

/-- An argument ends before a comma or the closing parenthesis. -/
theorem exists_current (h : ArgumentEnds c) :
    ∃ ch, c.current = some ch ∧ (ch = ',' ∨ ch = ')') := by
  rcases h with h | h
  · exact ⟨',', h, .inl rfl⟩
  · exact ⟨')', h, .inr rfl⟩

/-- Behind an argument there are no blanks left to skip. -/
theorem skipBlank_eq (h : ArgumentEnds c) : c.skipBlank = c := by
  obtain ⟨ch, hc, rfl | rfl⟩ := h.exists_current
  · exact skipBlank_eq_self hc (by decide) (by decide)
  · exact skipBlank_eq_self hc (by decide) (by decide)

/-- Skipping blanks behind an argument leaves it ended. -/
theorem skipBlank (h : ArgumentEnds c) : ArgumentEnds c.skipBlank := by
  rwa [h.skipBlank_eq]

/-- In front of blanks and the end of an argument an expression ends. -/
theorem expressionEnds (h : ArgumentEnds c.skipBlank) : ExpressionEnds c := by
  rcases h with hc | hc
  · exact expressionEnds_of_skipBlank hc (by decide) (by decide)
  · exact expressionEnds_of_skipBlank hc (by decide) (by decide)

/-- A literal is over where an argument ends, behind blanks. -/
theorem literalEnds (h : ArgumentEnds c.skipBlank) (l : Literal) : LiteralEnds l c.rest := by
  cases l with
  | string s => trivial
  | number n => exact h.expressionEnds.number _

/-- No colon follows an argument, so its name is not that of a named one. -/
theorem ne_colon (h : ArgumentEnds c) : c.current ≠ some ':' := by
  obtain ⟨ch, hc, hch⟩ := h.exists_current
  rw [hc]
  rcases hch with rfl | rfl <;> decide

end ArgumentEnds

/-- An expression that no colon follows is an argument by position. -/
theorem argument_positional {deep : Nested} {c stop : Cursor} {e : Expression}
    (hread : inlineExpression deep c = .ok (e, stop))
    (hcolon : stop.skipBlank.current ≠ some ':') :
    argument deep c = .ok (.positional e, stop) := by
  rw [argument, hread]
  cases e with
  | message id attr =>
    cases attr with
    | none => exact if_neg hcolon
    | some attr => rfl
  | string | number | var | term | function | select | placeable => rfl

/-- A name, a colon and a literal are an argument by name, whatever blanks stand between them. -/
theorem argument_named {deep : Nested} {a : NamedArgument} {c point colon stop : Cursor}
    (hname : IsName a.name.name.toList) (hvalue : IsLiteral a.value)
    (hn : c.Passes a.name.name.toList point) (hcolon : point.skipBlank.Passes [':'] colon)
    (hlit : colon.skipBlank.Passes a.value.print stop) (hends : LiteralEnds a.value stop.rest) :
    argument deep c = .ok (.named a, stop) := by
  -- the name is read as the name of a message, which the colon behind it ends
  have hread : inlineExpression deep c = .ok (.message a.name none, point) := by
    have hmessage : InlinePrints deep (.message a.name none) :=
      InlineReadable.message_prints hname isAccessor_none
    refine hmessage.reads 0 ?_
      (expressionEnds_of_skipBlank hcolon.current_cons (by decide) (by decide))
    have hprint : (Expression.message a.name none).print false = a.name.name.toList := by
      rw [Expression.print]
      exact List.append_nil _
    rw [hprint, indentBy_of_not_mem 0 hname.oneLine.1]
    exact hn
  rw [argument, hread]
  show (if point.skipBlank.current = some ':' then _ else _) = _
  rw [if_pos hcolon.current_cons, Cursor.bump_eq hcolon,
    literal_eq_ok_iff.2 ⟨hvalue, hlit, hends⟩]
  rfl

/-- The text is read as the argument, up to blanks and the comma or the parenthesis behind it. -/
def ReadAs (deep : Nested) (given : Argument) (text : List Char) : Prop :=
  ∀ ⦃c stop : Cursor⦄, c.Passes text stop → ArgumentEnds stop.skipBlank →
    argument deep c = .ok (given, stop)

/-- An argument is printed as a text that is read again. -/
structure ArgumentPrints (deep : Nested) (given : Argument) : Prop where
  noReturn : '\r' ∉ given.print
  endsLine : endsLine false given.print = false
  reads : ∀ n {c stop : Cursor}, c.Passes (indentBy n false given.print) stop →
    ArgumentEnds stop → argument deep c = .ok (given, stop)

/-- A literal is printed on one line. -/
theorem IsLiteral.oneLine {l : Literal} (h : IsLiteral l) : OneLine l.print := by
  cases l with
  | string s => exact IsString.oneLine h
  | number n => exact (IsNumber.numeral h).oneLine

/-- A literal starts with something other than a blank. -/
theorem IsLiteral.cons {l : Literal} (h : IsLiteral l) :
    ∃ ch rest, l.print = ch :: rest ∧ ch ≠ ' ' ∧ ch ≠ '\n' := by
  cases l with
  | string s => exact ⟨'"', _, rfl, by decide, by decide⟩
  | number n =>
    obtain ⟨ch, rest, hcons, hch⟩ := (IsNumber.numeral h).cons
    refine ⟨ch, rest, hcons, ?_, ?_⟩ <;> rintro rfl <;> exact absurd hch (by decide)

/-- Blanks, the colon and blanks stand between the name and the value of an argument. -/
theorem readAs_named {deep : Nested} {a : NamedArgument} (hname : IsName a.name.name.toList)
    (hvalue : IsLiteral a.value) {before after : List Char} (hbefore : Blank before)
    (hafter : Blank after) :
    ReadAs deep (.named a) (a.name.name.toList ++ (before ++ ':' :: (after ++ a.value.print))) := by
  intro c stop hp hends
  obtain ⟨point, hn, hp⟩ := hp.split
  obtain ⟨sign, hbefore', hp⟩ := hp.split
  obtain ⟨colon, hcolon, hp⟩ := hp.uncons
  obtain ⟨start, hafter', hlit⟩ := hp.split
  have hsign : point.skipBlank = sign :=
    skipBlank_eq_of_passes hbefore' hbefore hcolon.current_cons (by decide) (by decide)
  have hstart : colon.skipBlank = start := by
    obtain ⟨ch, rest, hcons, hs, hf⟩ := hvalue.cons
    have hc : start.current = some ch := by
      rw [hlit.current_eq, hcons]
      rfl
    exact skipBlank_eq_of_passes hafter' hafter hc hs hf
  exact argument_named hname hvalue hn (hsign ▸ hcolon) (hstart ▸ hlit) (hends.literalEnds a.value)

namespace ArgumentReadable

variable {deep : Nested} {given : Argument}

/-- A named argument is printed on one line. -/
theorem oneLine_named {a : NamedArgument} (hname : IsName a.name.name.toList)
    (hvalue : IsLiteral a.value) : OneLine a.print := by
  refine (hname.oneLine.append ?_).append hvalue.oneLine
  exact (oneLine_nil.cons (by decide) (by decide)).cons (by decide) (by decide)

/-- A printed argument is read again. -/
theorem readAs (hdeep : Canonical deep) (h : ArgumentReadable deep given) (n : Nat) :
    ReadAs deep given (indentBy n false given.print) := by
  cases given with
  | positional e =>
    intro c stop hp hends
    exact argument_positional ((h.prints hdeep).reads n hp hends.expressionEnds) hends.ne_colon
  | named a =>
    have hspace : Blank [' '] := by simp [Blank, isBlank]
    show ReadAs deep (.named a) (indentBy n false a.print)
    rw [indentBy_of_not_mem n (oneLine_named h.1 h.2).1, NamedArgument.print, List.append_assoc]
    exact readAs_named h.1 h.2 blank_nil hspace

theorem prints (hdeep : Canonical deep) (h : ArgumentReadable deep given) :
    ArgumentPrints deep given := by
  have hread : ∀ n {c stop : Cursor}, c.Passes (indentBy n false given.print) stop →
      ArgumentEnds stop → argument deep c = .ok (given, stop) :=
    fun n {c stop} hp hends => h.readAs hdeep n hp hends.skipBlank
  cases given with
  | positional e =>
    have hprints := InlineReadable.prints hdeep h
    exact ⟨hprints.noReturn, hprints.endsLine, hread⟩
  | named a =>
    have hline := oneLine_named h.1 h.2
    exact ⟨hline.2, endsLine_of_not_mem hline.1, hread⟩

end ArgumentReadable

/-! ## All arguments -/

/-- What can be read as the arguments of a call. -/
structure CallReadable (deep : Nested) (a : CallArguments) : Prop where
  positional : ∀ e ∈ a.positional, InlineReadable deep e
  named : ∀ given ∈ a.named, ArgumentReadable deep (.named given)
  checked : a.Checked

/-- All arguments so far can be read. -/
def ArgumentsSoFar.Readable (deep : Nested) (soFar : ArgumentsSoFar) : Prop :=
  (∀ e ∈ soFar.positional, InlineReadable deep e) ∧
    ∀ given ∈ soFar.named, ArgumentReadable deep (.named given)

/-- One more argument that can be read keeps the arguments readable. -/
theorem ArgumentsSoFar.Readable.push {deep : Nested} {soFar next : ArgumentsSoFar} {c : Cursor}
    {given : Argument} (h : soFar.Readable deep) (hg : ArgumentReadable deep given)
    (hnext : soFar.push c given = .ok next) : next.Readable deep := by
  obtain ⟨hpos, hnamed⟩ := h
  cases given with
  | positional e =>
    change (if soFar.named.isEmpty then _ else _) = _ at hnext
    split at hnext
    · obtain rfl := Except.ok.inj hnext
      refine ⟨fun x hx => ?_, hnamed⟩
      rcases List.mem_cons.1 hx with rfl | hx
      · exact hg
      · exact hpos x hx
    · exact absurd hnext fail_ne_ok
  | named a =>
    change (if soFar.named.any _ then _ else _) = _ at hnext
    split at hnext
    · exact absurd hnext fail_ne_ok
    · obtain rfl := Except.ok.inj hnext
      refine ⟨hpos, fun x hx => ?_⟩
      rcases List.mem_cons.1 hx with rfl | hx
      · exact hg
      · exact hnamed x hx

/-- A list that is closed holds the arguments that were pushed. -/
theorem ArgumentsSoFar.Readable.close_ok {deep : Nested} {soFar : ArgumentsSoFar} {c stop : Cursor}
    {a : CallArguments} (h : soFar.Readable deep) (hclose : soFar.close c = .ok (a, stop)) :
    CallReadable deep a := by
  obtain ⟨last, -, hclose⟩ := bind_eq_ok.1 hclose
  split at hclose
  · rename_i built hbuild
    obtain ⟨rfl, -⟩ := Prod.mk.inj (Except.ok.inj hclose)
    obtain ⟨hchecked, rfl⟩ := CallArguments.build_eq_ok_iff.1 hbuild
    exact ⟨fun e he => h.1 e (List.mem_reverse.1 he), fun x hx => h.2 x (List.mem_reverse.1 hx),
      hchecked⟩
  · exact absurd hclose fail_ne_ok

/-- What was read as the arguments of a call. -/
theorem argumentsFrom_ok {deep : Nested} {soFar : ArgumentsSoFar} {c stop : Cursor}
    {a : CallArguments} (h : argumentsFrom deep soFar c = .ok (a, stop)) (hclean : '\r' ∉ c.rest)
    (hs : soFar.Readable deep) : CallReadable deep a := by
  -- an argument is added before it is known what stands behind it
  have hnext : ∀ {soFar extended : ArgumentsSoFar} {c last : Cursor}, '\r' ∉ c.rest →
      soFar.Readable deep → nextArgument deep soFar c = .ok (extended, last) →
      extended.Readable deep := by
    intro soFar extended c last hclean hs hn
    obtain ⟨⟨given, close⟩, hg, hn⟩ := bind_eq_ok.1 hn
    obtain ⟨more, hpush, hn⟩ := bind_eq_ok.1 hn
    obtain ⟨rfl, -⟩ := Prod.mk.inj (Except.ok.inj hn)
    exact hs.push (argument_ok hg hclean) hpush
  fun_induction argumentsFrom deep soFar c with
  | case1 => exact hs.close_ok h
  | case2 | case5 => cases h
  | case3 soFar c _ extended last ha _ ih =>
    refine ih h (Cursor.not_mem_of_le ?_ hclean) (hnext hclean hs ha)
    exact Cursor.le_trans (Cursor.le_of_lt (nextArgument_lt ha))
      (Cursor.le_trans (Cursor.le_bump last) (Cursor.le_skipBlank _))
  | case4 _ _ _ _ _ ha => exact (hnext hclean hs ha).close_ok h

/-- What was read as arguments can be printed and read again. -/
theorem arguments_ok {deep : Nested} {c stop : Cursor} {a : CallArguments}
    (h : arguments deep c = .ok (a, stop)) (hclean : '\r' ∉ c.rest) : CallReadable deep a := by
  obtain ⟨start, hs, h⟩ := bind_eq_ok.1 h
  refine argumentsFrom_ok h (Cursor.not_mem_of_le ?_ hclean) ⟨nofun, nofun⟩
  exact Cursor.le_trans (Cursor.le_of_lt (expectChar_lt hs)) (Cursor.le_skipBlank start)

/-! ## Reading printed arguments -/

/-- An inline expression starts with something that neither is blank nor closes anything. -/
theorem inlineExpression_current {deep : Nested} {c stop : Cursor} {e : Expression}
    (h : inlineExpression deep c = .ok (e, stop)) :
    ∃ ch, c.current = some ch ∧ ch ≠ ' ' ∧ ch ≠ '\n' ∧ ch ≠ ')' := by
  -- an expression starts with none of the characters that end or separate arguments
  have hfail : c.current = none ∨ c.current = some ' ' ∨ c.current = some '\n' ∨
      c.current = some ')' → inlineExpression deep c ≠ .ok (e, stop) := by
    rintro (hc | hc | hc | hc)
    · simp [inlineExpression, startsNumber, hc]
    · simp [inlineExpression, startsNumber, hc, isIdentifierStart]
    · simp [inlineExpression, startsNumber, hc, isIdentifierStart]
    · simp [inlineExpression, startsNumber, hc, isIdentifierStart]
  cases hc : c.current with
  | none => exact absurd h (hfail (.inl hc))
  | some ch =>
    refine ⟨ch, rfl, ?_, ?_, ?_⟩
    · rintro rfl
      exact hfail (.inr (.inl hc)) h
    · rintro rfl
      exact hfail (.inr (.inr (.inl hc))) h
    · rintro rfl
      exact hfail (.inr (.inr (.inr hc))) h

/-- So does a text that is read as an argument. -/
theorem ReadAs.cons {deep : Nested} {given : Argument} {text : List Char}
    (h : ReadAs deep given text) :
    ∃ ch rest, text = ch :: rest ∧ ch ≠ ' ' ∧ ch ≠ '\n' ∧ ch ≠ ')' := by
  have hends : ArgumentEnds ⟨[')'], utf8Length text⟩ := .inr rfl
  have hp : Cursor.Passes ⟨text ++ [')'], 0⟩ text ⟨[')'], utf8Length text⟩ :=
    ⟨rfl, (Nat.zero_add _).symm⟩
  obtain ⟨⟨e, last⟩, he, -⟩ := bind_eq_ok.1 (h hp hends.skipBlank)
  obtain ⟨ch, hc, hspace, hfeed, hclose⟩ := inlineExpression_current he
  cases text with
  | nil => exact absurd (Option.some.inj hc).symm hclose
  | cons x rest =>
    obtain rfl := Option.some.inj hc
    exact ⟨x, rest, rfl, hspace, hfeed, hclose⟩

/-! ## Texts between commas -/

/-- The texts with commas between them, and blanks around the commas and behind the last text.
Another comma may stand behind that one. -/
inductive CommaSeparated : List (List Char) → List Char → Prop
  | nil : CommaSeparated [] []
  | last {text gap : List Char} (hgap : Blank gap) : CommaSeparated [text] (text ++ gap)
  | cons {text before after tail : List Char} {texts : List (List Char)} (hbefore : Blank before)
      (hafter : Blank after) (htail : CommaSeparated texts tail) :
      CommaSeparated (text :: texts) (text ++ (before ++ ',' :: (after ++ tail)))

/-- Texts between commas start with the first of them. -/
theorem CommaSeparated.head {text whole : List Char} {texts : List (List Char)}
    (h : CommaSeparated (text :: texts) whole) : ∃ tail, whole = text ++ tail := by
  cases h with
  | last => exact ⟨_, rfl⟩
  | cons => exact ⟨_, rfl⟩

/-- One argument is printed without a comma. -/
theorem joinArguments_singleton (text : List Char) : joinArguments [text] = text := by
  simp [joinArguments, List.intercalate]

/-- A comma and a space stand between two arguments. -/
theorem joinArguments_cons_cons (text next : List Char) (texts : List (List Char)) :
    joinArguments (text :: next :: texts) =
      text ++ ',' :: ' ' :: joinArguments (next :: texts) := by
  simp [joinArguments, List.intercalate, List.intersperse]

/-- Joined texts, none of which ends a line, end no line. -/
theorem endsLine_joinArguments {texts : List (List Char)}
    (h : ∀ text ∈ texts, endsLine false text = false) :
    endsLine false (joinArguments texts) = false := by
  induction texts with
  | nil => rfl
  | cons text texts ih =>
    have hrest := ih fun x hx => h x (List.mem_cons_of_mem _ hx)
    have htext := h text List.mem_cons_self
    cases texts with
    | nil => rwa [joinArguments_singleton]
    | cons next texts =>
      rw [joinArguments_cons_cons, endsLine_append, htext, endsLine_cons, endsLine_cons]
      exact hrest

/-- Joined texts, none of which ends a line, stand between commas, whatever their indentation. -/
theorem commaSeparated_joinArguments (n : Nat) {texts : List (List Char)}
    (h : ∀ text ∈ texts, endsLine false text = false) :
    CommaSeparated (texts.map (indentBy n false)) (indentBy n false (joinArguments texts)) := by
  induction texts with
  | nil => exact .nil
  | cons text texts ih =>
    have hrest := ih fun x hx => h x (List.mem_cons_of_mem _ hx)
    cases texts with
    | nil =>
      have hlast : CommaSeparated [indentBy n false text] (indentBy n false text ++ []) :=
        .last blank_nil
      rw [List.append_nil] at hlast
      rwa [joinArguments_singleton]
    | cons next texts =>
      rw [joinArguments_cons_cons, indentBy_append, h text List.mem_cons_self,
        indentBy_cons n (by decide), indentBy_cons n (by decide)]
      have hspace : Blank [' '] := by simp [Blank, isBlank]
      exact .cons blank_nil hspace hrest

/-- Adding the arguments one by one leads from the first to the second. -/
def ArgumentsSoFar.Extends (soFar : ArgumentsSoFar) : List Argument → ArgumentsSoFar → Prop
  | [], final => soFar = final
  | given :: rest, final => ∃ next, (∀ c, soFar.push c given = .ok next) ∧ next.Extends rest final

/-- An argument is read and added, and what may follow it is found. -/
theorem ReadAs.nextArgument {deep : Nested} {given : Argument} {text : List Char}
    (h : ReadAs deep given text) {soFar next : ArgumentsSoFar}
    (hpush : ∀ c, soFar.push c given = .ok next) {c stop : Cursor} (hp : c.Passes text stop)
    (hends : ArgumentEnds stop.skipBlank) :
    c.current ≠ some ')' ∧ Grammar.nextArgument deep soFar c = .ok (next, stop.skipBlank) := by
  constructor
  · obtain ⟨ch, rest, rfl, -, -, hclose⟩ := h.cons
    rw [hp.current_cons]
    exact fun heq => hclose (Option.some.inj heq)
  · rw [Grammar.nextArgument, h hp hends]
    show (soFar.push c given >>= _) = _
    rw [hpush c]
    rfl

/-- Where the texts of arguments start, or their parenthesis closes, no blank stands. -/
theorem CommaSeparated.skipBlank_eq {deep : Nested} {list : List Argument}
    {texts : List (List Char)} {inside : List Char} (h : CommaSeparated texts inside)
    (hlist : List.Forall₂ (ReadAs deep) list texts) {gap : List Char} (hgap : Blank gap)
    {c start stop : Cursor} (hp : c.Passes gap start)
    (hinside : start.Passes (inside ++ [')']) stop) : c.skipBlank = start := by
  cases hlist with
  | nil =>
    cases h
    exact skipBlank_eq_of_passes hp hgap hinside.current_cons (by decide) (by decide)
  | cons hgiven _ =>
    obtain ⟨tail, rfl⟩ := h.head
    obtain ⟨ch, rest, rfl, hs, hf, -⟩ := hgiven.cons
    exact skipBlank_eq_of_passes hp hgap hinside.current_cons hs hf

/-- Arguments are read one after the other, whatever blanks stand between them. -/
theorem argumentsFrom_of_separated {deep : Nested} {list : List Argument} {texts : List (List Char)}
    {inside : List Char} (h : CommaSeparated texts inside)
    (hlist : List.Forall₂ (ReadAs deep) list texts) {soFar final : ArgumentsSoFar}
    (hext : soFar.Extends list final) {c stop : Cursor}
    (hp : c.Passes (inside ++ [')']) stop) :
    ∃ last, last.Passes [')'] stop ∧ argumentsFrom deep soFar c = final.close last := by
  induction h generalizing list soFar c with
  | nil =>
    cases hlist
    obtain rfl : soFar = final := hext
    exact ⟨c, hp, by rw [argumentsFrom_eq, if_pos (Cursor.Passes.current_cons hp)]⟩
  | last hgap =>
    obtain ⟨given, rest, hgiven, hrest, rfl⟩ := List.forall₂_cons_right_iff.1 hlist
    obtain rfl := List.forall₂_nil_right_iff.1 hrest
    obtain ⟨next, hpush, rfl⟩ := hext
    rw [List.append_assoc] at hp
    -- the argument, blanks, then the closing parenthesis
    obtain ⟨mid, htext, hp⟩ := hp.split
    obtain ⟨last, hblank, hclose⟩ := hp.split
    have hlast : last.current = some ')' := hclose.current_cons
    have hskip : mid.skipBlank = last :=
      skipBlank_eq_of_passes hblank hgap hlast (by decide) (by decide)
    obtain ⟨hne, hread⟩ := hgiven.nextArgument hpush htext (hskip ▸ .inr hlast)
    refine ⟨last, hclose, ?_⟩
    rw [argumentsFrom_eq, if_neg hne, hread, hskip]
    show (if last.current = some ',' then _ else _) = _
    rw [hlast, if_neg (by decide), if_pos rfl]
  | cons hbefore hafter htail ih =>
    obtain ⟨given, rest, hgiven, hrest, rfl⟩ := List.forall₂_cons_right_iff.1 hlist
    obtain ⟨next, hpush, hext⟩ := hext
    rw [List.append_assoc, List.append_assoc, List.cons_append, List.append_assoc] at hp
    -- the argument, blanks, the comma, blanks, then the arguments left
    obtain ⟨mid, htext, hp⟩ := hp.split
    obtain ⟨comma, hblank, hp⟩ := hp.split
    obtain ⟨gap, hcomma, hp⟩ := hp.uncons
    obtain ⟨start, hgap, hinside⟩ := hp.split
    have hcur : comma.current = some ',' := hcomma.current_cons
    have hskip : mid.skipBlank = comma :=
      skipBlank_eq_of_passes hblank hbefore hcur (by decide) (by decide)
    have hstart := htail.skipBlank_eq hrest hafter hgap hinside
    obtain ⟨hne, hread⟩ := hgiven.nextArgument hpush htext (hskip ▸ .inl hcur)
    obtain ⟨last, hclose, hagain⟩ := ih hrest hext hinside
    refine ⟨last, hclose, ?_⟩
    rw [argumentsFrom_eq, if_neg hne, hread, hskip]
    show (if comma.current = some ',' then _ else _) = _
    rw [if_pos hcur, Cursor.bump_eq hcomma, hstart, hagain]

/-! ## Reading printed calls -/

/-- Arguments given by position may be added first. -/
theorem extends_positional {list : List Expression} {positional : List Expression}
    {rest : List Argument} {final : ArgumentsSoFar}
    (h : ArgumentsSoFar.Extends ⟨list.reverse ++ positional, []⟩ rest final) :
    ArgumentsSoFar.Extends ⟨positional, []⟩ (list.map .positional ++ rest) final := by
  induction list generalizing positional with
  | nil => exact h
  | cons e list ih =>
    refine ⟨⟨e :: positional, []⟩, fun c => rfl, ih ?_⟩
    simpa using h

/-- Arguments of different names may be added then. -/
theorem extends_named (positional : List Expression) (named : List NamedArgument)
    {list : List NamedArgument} (h : repeatedName? (named.map NamedArgument.name) list = none) :
    ArgumentsSoFar.Extends ⟨positional, named⟩ (list.map .named)
      ⟨positional, list.reverse ++ named⟩ := by
  induction list generalizing named with
  | nil => rfl
  | cons a list ih =>
    rw [repeatedName?] at h
    split at h
    · cases h
    · rename_i hnew
      refine ⟨⟨positional, a :: named⟩, fun c => ?_, ?_⟩
      · refine if_neg fun hany => hnew ?_
        obtain ⟨earlier, hmem, heq⟩ := List.any_eq_true.1 hany
        exact List.mem_map.2 ⟨earlier, hmem, eq_of_beq heq⟩
      · have hrest := ih (a :: named) h
        simpa using hrest

/-- Joining puts no other characters in than commas and spaces. -/
theorem not_mem_joinArguments {ch : Char} (hcomma : ch ≠ ',') (hspace : ch ≠ ' ')
    {texts : List (List Char)} (h : ∀ text ∈ texts, ch ∉ text) : ch ∉ joinArguments texts := by
  induction texts with
  | nil => exact List.not_mem_nil
  | cons text texts ih =>
    have hrest := ih fun x hx => h x (List.mem_cons_of_mem _ hx)
    cases texts with
    | nil =>
      rw [joinArguments_singleton]
      exact h text List.mem_cons_self
    | cons next texts =>
      rw [joinArguments_cons_cons]
      intro hmem
      rcases List.mem_append.1 hmem with hmem | hmem
      · exact h text List.mem_cons_self hmem
      · rcases List.mem_cons.1 hmem with hmem | hmem
        · exact hcomma hmem
        · rcases List.mem_cons.1 hmem with hmem | hmem
          · exact hspace hmem
          · exact hrest hmem

/-- Positional arguments are printed one by one. -/
theorem printArguments_eq (list : List Expression) :
    printArguments list = list.map (Expression.print false) := by
  induction list with
  | nil => rw [printArguments]; rfl
  | cons e list ih => rw [printArguments, ih]; rfl

/-- The arguments of a call in the order in which they are printed. -/
def givenArguments (a : CallArguments) : List Argument :=
  a.positional.map .positional ++ a.named.map .named

/-- Arguments are printed between parentheses, positional and named ones in one list. -/
theorem arguments_print_eq_given (a : CallArguments) :
    a.print = '(' :: (joinArguments ((givenArguments a).map Argument.print) ++ [')']) := by
  obtain ⟨positional, named⟩ := a
  rw [CallArguments.print, printArguments_eq, givenArguments, List.map_append, List.map_map,
    List.map_map]
  rfl

/-- Arguments are read with their parentheses, whatever blanks stand between them. -/
theorem arguments_of_separated {deep : Nested} {a : CallArguments} {texts : List (List Char)}
    {gap inside : List Char} (hchecked : a.Checked) (h : CommaSeparated texts inside)
    (hlist : List.Forall₂ (ReadAs deep) (givenArguments a) texts) (hgap : Blank gap)
    {c stop : Cursor} (hp : c.Passes ('(' :: (gap ++ (inside ++ [')']))) stop) :
    arguments deep c = .ok (a, stop) := by
  have hext : ArgumentsSoFar.Extends ⟨[], []⟩ (givenArguments a)
      ⟨a.positional.reverse, a.named.reverse⟩ := by
    refine extends_positional ?_
    have hnamed := extends_named a.positional.reverse [] (CallArguments.checked_iff.1 hchecked)
    simpa using hnamed
  obtain ⟨blank, hopen, hp⟩ := hp.uncons
  obtain ⟨start, hblank, hinside⟩ := hp.split
  have hstart := h.skipBlank_eq hlist hgap hblank hinside
  obtain ⟨last, hclose, hread⟩ := argumentsFrom_of_separated h hlist hext hinside
  have hbuild : CallArguments.build a.positional a.named = .ok a :=
    CallArguments.build_eq_ok_iff.2 ⟨hchecked, by cases a; rfl⟩
  rw [arguments, expectChar_eq_ok_iff.2 hopen]
  show argumentsFrom deep ⟨[], []⟩ blank.skipBlank = _
  rw [hstart, hread, ArgumentsSoFar.close, expectChar_eq_ok_iff.2 hclose]
  simp only [List.reverse_reverse, hbuild]
  rfl

namespace CallReadable

variable {deep : Nested} {a : CallArguments}

/-- Each argument of a readable call can be read. -/
theorem given (h : CallReadable deep a) : ∀ x ∈ givenArguments a, ArgumentReadable deep x := by
  intro x hx
  rcases List.mem_append.1 hx with hx | hx
  · obtain ⟨e, he, rfl⟩ := List.mem_map.1 hx
    exact h.positional e he
  · obtain ⟨named, hn, rfl⟩ := List.mem_map.1 hx
    exact h.named named hn

/-- Printed arguments hold no carriage return. -/
theorem noReturn (h : CallReadable deep a) (hdeep : Canonical deep) : '\r' ∉ a.print := by
  rw [arguments_print_eq_given]
  have hjoin : '\r' ∉ joinArguments ((givenArguments a).map Argument.print) := by
    refine not_mem_joinArguments (by decide) (by decide) fun text htext => ?_
    obtain ⟨x, hx, rfl⟩ := List.mem_map.1 htext
    exact ((h.given x hx).prints hdeep).noReturn
  simpa using hjoin

/-- Printed arguments are read again. -/
theorem reads (h : CallReadable deep a) (hdeep : Canonical deep) (n : Nat) {c stop : Cursor}
    (hp : c.Passes (indentBy n false a.print) stop) : arguments deep c = .ok (a, stop) := by
  have htexts : ∀ text ∈ (givenArguments a).map Argument.print, endsLine false text = false := by
    intro text htext
    obtain ⟨x, hx, rfl⟩ := List.mem_map.1 htext
    exact ((h.given x hx).prints hdeep).endsLine
  have hlist : List.Forall₂ (ReadAs deep) (givenArguments a)
      (((givenArguments a).map Argument.print).map (indentBy n false)) := by
    rw [List.map_map, List.forall₂_map_right_iff, List.forall₂_same]
    exact fun x hx => (h.given x hx).readAs hdeep n
  have htext : indentBy n false a.print =
      '(' :: ([] ++ (indentBy n false (joinArguments ((givenArguments a).map Argument.print)) ++
        [')'])) := by
    rw [arguments_print_eq_given, indentBy_cons n (by decide), indentBy_append,
      endsLine_joinArguments htexts]
    rfl
  rw [htext] at hp
  exact arguments_of_separated h.checked (commaSeparated_joinArguments n htexts) hlist blank_nil hp

end CallReadable

end Fluent.Grammar
