/-
# Rules in front of entries

Where an entry starts, a rule for what stands between braces or in parentheses may still read a
name, as a reference or as a key.  An equals sign stands behind that name, so nothing can be
completed there.

* `Head.inlineExpression`, `Head.keyText` : what is read ends in front of the equals sign;
* `Head.closeBody_ne_ok`, `Head.argumentsFrom_ne_ok` : no placeable and no call can be closed.
-/
import Fluent.Proofs.Grammar.Inline
import Fluent.Proofs.Grammar.Loops
import Fluent.Proofs.Grammar.Spacing

namespace Fluent.Grammar

/-! ## Expressions -/

/-- In front of an equals sign an expression ends. -/
theorem expressionEnds_equals {c : Cursor} {spaces text : List Char} (hs : Spaces spaces)
    (hc : c.rest = spaces ++ '=' :: text) :
    ExpressionEnds c ∧ c.skipBlank.current = some '=' := by
  have hskip : c.skipBlank.current = some '=' := by
    rw [skipBlank_eq_of_passes (Cursor.passes_of_rest hc) hs.blank rfl (by decide) (by decide)]
    rfl
  exact ⟨expressionEnds_of_skipBlank hskip (by decide) (by decide), hskip⟩

/-- A printed reference in front of an equals sign is read up to that sign. -/
theorem InlinePrints.read_equals {deep : Nested} {e : Expression} (he : InlinePrints deep e)
    (hline : '\n' ∉ e.print false) {c : Cursor} {spaces text : List Char} (hs : Spaces spaces)
    (hc : c.rest = e.print false ++ (spaces ++ '=' :: text)) :
    ∃ stop, inlineExpression deep c = .ok (e, stop) ∧ stop.skipBlank.current = some '=' := by
  have hp := Cursor.passes_of_rest hc
  obtain ⟨hends, hequals⟩ := expressionEnds_equals
    (c := ⟨spaces ++ '=' :: text, c.pos + utf8Length (e.print false)⟩) hs rfl
  refine ⟨_, he.reads 0 ?_ hends, hequals⟩
  rw [indentBy_of_not_mem 0 hline]
  exact hp

namespace Head

variable {deep : Nested} {c stop : Cursor}

/-- Nothing but a reference can be read at the start of an entry, and an equals sign stands behind
it. -/
theorem inlineExpression (h : Head c.rest) {e : Expression}
    (hread : Grammar.inlineExpression deep c = .ok (e, stop)) :
    stop.skipBlank.current = some '=' := by
  -- the name in front is read as a reference, and nothing else can be read there
  have hreference : ∃ e' last, Grammar.inlineExpression deep c = .ok (e', last) ∧
      last.skipBlank.current = some '=' := by
    generalize hrest : c.rest = rest at h
    cases h with
    | mark text =>
      have hc : c.current = some '#' := by rw [Cursor.current, hrest]; rfl
      rw [Grammar.inlineExpression, startsNumber_eq_false hc (by decide) (by decide), hc] at hread
      cases hread
    | @message name spaces hname hs text =>
      have hprint : (Expression.message ⟨String.ofList name⟩ none).print false = name := by
        simp [Expression.print, printAccessor, inBraces]
      have hprints : InlinePrints deep (.message ⟨String.ofList name⟩ none) :=
        InlineReadable.message_prints (by rwa [String.toList_ofList]) isAccessor_none
      exact ⟨_, hprints.read_equals (by rw [hprint]; exact hname.oneLine.1) hs
        (by rw [hprint, hrest])⟩
    | @term name spaces hname hs text =>
      have hprint : (Expression.term ⟨String.ofList name⟩ none none).print false = '-' :: name := by
        simp [Expression.print, printAccessor, inBraces]
      have hprints : InlinePrints deep (.term ⟨String.ofList name⟩ none none) :=
        InlineReadable.term_prints (by rwa [String.toList_ofList]) isAccessor_none
      have hline : OneLine ('-' :: name) := hname.oneLine.cons (by decide) (by decide)
      exact ⟨_, hprints.read_equals (by rw [hprint]; exact hline.1) hs
        (by rw [hprint, hrest]; rfl)⟩
  obtain ⟨e', last, hread', hequals⟩ := hreference
  obtain ⟨-, rfl⟩ := Prod.mk.inj (Except.ok.inj (hread.symm.trans hread'))
  exact hequals

/-- No arrow stands at the start of an entry. -/
theorem atArrow_eq_false (h : Head c.rest) : atArrow c = false := by
  rw [atArrow, Cursor.startsWith]
  cases h' : c.rest with
  | nil => rfl
  | cons ch rest =>
    rw [h'] at h
    generalize hw : ch :: rest = w at h
    cases h with
    | mark text =>
      obtain ⟨rfl, rfl⟩ := List.cons.inj hw
      rfl
    | @message name spaces hname hs text =>
      obtain ⟨x, more, rfl, hx⟩ := hname.cons
      obtain ⟨rfl, rfl⟩ := List.cons.inj hw
      have hminus : ch ≠ '-' := (isIdentifierStart_not_digit hx).2
      simp [List.isPrefixOf, hminus.symm]
    | @term name spaces hname hs text =>
      obtain ⟨x, more, rfl, hx⟩ := hname.cons
      obtain ⟨rfl, rfl⟩ := List.cons.inj hw
      have hangle : x ≠ '>' := by
        rintro rfl
        exact absurd hx (by decide)
      simp [List.isPrefixOf, hangle.symm]

/-- What is read there as the body of a placeable ends before the equals sign, so no brace closes
it. -/
theorem body (h : Head c.rest) {e : Expression} (hread : Grammar.body deep c = .ok (e, stop)) :
    stop.skipBlank.current = some '=' := by
  obtain ⟨⟨selector, after⟩, hselector, hread⟩ := bind_eq_ok.1 hread
  have hequals := h.inlineExpression hselector
  -- the equals sign stands where an arrow would
  have harrow : atArrow after.skipBlank = false := Grammar.atArrow_eq_false hequals (by decide)
  dsimp only at hread
  rw [harrow, if_neg (by decide)] at hread
  split at hread
  · exact absurd hread fail_ne_ok
  · obtain ⟨-, rfl⟩ := Prod.mk.inj (Except.ok.inj hread)
    exact hequals

/-- No placeable can be closed behind the start of an entry. -/
theorem closeBody_ne_ok (h : Head c.rest) (wrappers : List Nat) (found : Expression × Cursor) :
    closeBody deep wrappers c ≠ .ok found := by
  intro hread
  obtain ⟨⟨e, stop⟩, hbody, hread⟩ := bind_eq_ok.1 hread
  obtain ⟨close, hclose, -⟩ := bind_eq_ok.1 hread
  have hcurrent := (expectChar_eq_ok.1 hclose).1
  exact absurd (hcurrent.symm.trans (h.body hbody)) (by decide)

/-- What is read there as an argument ends before the equals sign, so no comma or parenthesis
follows. -/
theorem argument (h : Head c.rest) {a : Argument}
    (hread : Grammar.argument deep c = .ok (a, stop)) : stop.skipBlank.current = some '=' := by
  obtain ⟨⟨e, last⟩, he, hread⟩ := bind_eq_ok.1 hread
  have hequals := h.inlineExpression he
  dsimp only at hread
  split at hread
  · rw [hequals, if_neg (by decide)] at hread
    obtain ⟨-, rfl⟩ := Prod.mk.inj (Except.ok.inj hread)
    exact hequals
  · obtain ⟨-, rfl⟩ := Prod.mk.inj (Except.ok.inj hread)
    exact hequals

/-- No call can be closed behind the start of an entry. -/
theorem argumentsFrom_ne_ok (h : Head c.rest) (soFar : ArgumentsSoFar)
    (found : CallArguments × Cursor) : argumentsFrom deep soFar c ≠ .ok found := by
  intro hread
  rw [argumentsFrom_eq, if_neg (h.current_ne (by decide))] at hread
  obtain ⟨⟨extended, stop⟩, hnext, hread⟩ := bind_eq_ok.1 hread
  obtain ⟨⟨given, last⟩, hgiven, hnext⟩ := bind_eq_ok.1 hnext
  obtain ⟨more, -, hnext⟩ := bind_eq_ok.1 hnext
  obtain ⟨-, rfl⟩ := Prod.mk.inj (Except.ok.inj hnext)
  dsimp only at hread
  rw [h.argument hgiven, if_neg (by decide), if_neg (by decide)] at hread
  cases hread

/-- No number starts where an entry does. -/
theorem startsNumber_eq_false (h : Head c.rest) : startsNumber c = false := by
  generalize hrest : c.rest = rest at h
  cases h with
  | mark text =>
    have hc : c.current = some '#' := by rw [Cursor.current, hrest]; rfl
    exact Grammar.startsNumber_eq_false hc (by decide) (by decide)
  | @message name spaces hname hs text =>
    obtain ⟨ch, more, rfl, hch⟩ := hname.cons
    have hc : c.current = some ch := by rw [Cursor.current, hrest]; rfl
    obtain ⟨hdigit, hminus⟩ := isIdentifierStart_not_digit hch
    exact Grammar.startsNumber_eq_false hc hminus hdigit
  | @term name spaces hname hs text =>
    obtain ⟨ch, more, rfl, hch⟩ := hname.cons
    exact startsNumber_minus hrest hch

/-- No literal stands where an entry starts. -/
theorem literal_ne_ok (h : Head c.rest) (found : Literal × Cursor) : literal c ≠ .ok found := by
  rw [literal, h.startsNumber_eq_false, if_neg (by decide), if_neg (h.current_ne (by decide))]
  exact fail_ne_ok

/-- The key of a variant cannot be closed behind the start of an entry. -/
theorem keyText (h : Head c.rest) {key : VariantKey}
    (hread : Grammar.keyText c = .ok (key, stop)) : stop.skipBlank.current = some '=' := by
  obtain ⟨hkey, hp, hend⟩ := keyText_eq_ok_iff.1 hread
  cases key with
  | number n =>
    have hnumber := startsNumber_of_numeral hkey.numeral hp
    rw [h.startsNumber_eq_false] at hnumber
    cases hnumber
  | identifier id =>
    have hid : IsName id.name.toList := hkey
    obtain ⟨x, rest, hcons, hx⟩ := hid.cons
    have hstart : c.current = some x := by
      rw [hp.current_eq, VariantKey.text, hcons]
      rfl
    generalize hrest : c.rest = rest at h
    cases h with
    | mark text =>
      rw [Cursor.current, hrest] at hstart
      obtain rfl := Option.some.inj hstart
      exact absurd hx (by decide)
    | @message name spaces hname hs text =>
      have hp' := Cursor.passes_of_rest hrest
      obtain ⟨hends, hequals⟩ := expressionEnds_equals
        (c := ⟨spaces ++ '=' :: text, c.pos + utf8Length name⟩) hs rfl
      -- the key takes as much as the name does
      have hsame : name = id.name.toList := by
        rw [← Cursor.leading_eq hp' hname.chars hends.name, Cursor.leading_eq hp hid.chars hend]
        rfl
      subst hsame
      rw [hp.unique hp']
      exact hequals
    | @term name spaces hname hs text =>
      rw [Cursor.current, hrest] at hstart
      obtain rfl := Option.some.inj hstart
      exact absurd hx (by decide)

end Head

end Fluent.Grammar
