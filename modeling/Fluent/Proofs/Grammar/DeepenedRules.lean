/-
# Reading texts that are indented further

What is read from a text is read from the same text indented further: from its placeables and calls
without reservation, as there only blanks change.  A pattern however ends at a line that is not
indented; with more spaces such a line would continue it, unless it starts with something that no
line of a pattern starts with.  Whatever a pattern stands in goes on in such a way, or ends itself.

* `CarriesClosed` : what is read up to the end of a pattern is read again;
* `Nested.Deepens.inlineExpression`, `Nested.Deepens.pattern`, `Nested.Deepens.body` : what stands
  between braces and parentheses;
* `nested_deepens` : the rules read again on every level.
-/
import Fluent.Proofs.Grammar.Deepening
import Fluent.Proofs.Grammar.Steadiness

namespace Fluent.Grammar

/-! ## Answers that depend on what follows -/

/-- What is read up to a place where a pattern may end is read again. -/
def CarriesClosed {α : Type} (k : Nat) (x y : Reading (α × Cursor)) : Prop :=
  ∀ a stop, x = .ok (a, stop) → Closes stop →
    ∃ stop', y = .ok (a, stop') ∧ Deeper k stop.rest stop'.rest

namespace Carries

variable {α β : Type} {k : Nat} {x y : Reading (α × Cursor)}

/-- The same value is read first, then what is next is related. -/
theorem bindSame {S : β → β → Prop} {f g : α × Cursor → Reading β}
    (h : Carries (Along (Deeper k) Eq) x y)
    (h' : ∀ a stop stop', x = .ok (a, stop) → Deeper k stop.rest stop'.rest →
      Carries S (f (a, stop)) (g (a, stop'))) : Carries S (x >>= f) (y >>= g) := by
  refine h.bind_of_ok ?_
  rintro ⟨a, stop⟩ ⟨a', stop'⟩ hx ⟨heq, hstop⟩
  obtain rfl : a = a' := heq
  exact h' a stop stop' hx hstop

/-- What is read again without reservation. -/
theorem closed (h : Carries (Along (Deeper k) Eq) x y) : CarriesClosed k x y := by
  intro a stop hx _
  obtain ⟨⟨a', stop'⟩, hy, heq, hstop⟩ := h (a, stop) hx
  obtain rfl : a = a' := heq
  exact ⟨stop', hy, hstop⟩

/-- Related first steps, then next ones that are read again. -/
theorem bindClosed {R : β → β → Prop} {first first' : Reading β} {f g : β → Reading (α × Cursor)}
    (h : Carries R first first')
    (h' : ∀ b b', first = .ok b → R b b' → CarriesClosed k (f b) (g b')) :
    CarriesClosed k (first >>= f) (first' >>= g) := by
  intro a stop hfound hcloses
  obtain ⟨b, hb, hfound⟩ := bind_eq_ok.1 hfound
  obtain ⟨b', hb', hrelated⟩ := h b hb
  obtain ⟨stop', hfound', hstop⟩ := h' b b' hb hrelated a stop hfound hcloses
  exact ⟨stop', bind_eq_ok.2 ⟨b', hb', hfound'⟩, hstop⟩

end Carries

namespace CarriesClosed

variable {α β : Type} {k : Nat} {x y : Reading (α × Cursor)}

/-- What was read carries over when the texts behind it do. -/
theorem ok {a : α} {c d : Cursor} (h : Deeper k c.rest d.rest) :
    CarriesClosed k (.ok (a, c)) (.ok (a, d)) :=
  Carries.closed (.ok ⟨rfl, h⟩)

/-- A rule that gives up asks nothing of the deeper text. -/
theorem fail (c : Cursor) (kind : FailureKind) (y : Reading (α × Cursor)) :
    CarriesClosed k (c.fail kind) y :=
  Carries.closed (.fail _ _ _)

/-- A step that leads to where a pattern may end, then a next one. -/
theorem bindSame {S : β → β → Prop} {f g : α × Cursor → Reading β} (h : CarriesClosed k x y)
    (hcloses : ∀ a stop b, f (a, stop) = .ok b → Closes stop)
    (h' : ∀ a stop stop', Deeper k stop.rest stop'.rest →
      Carries S (f (a, stop)) (g (a, stop'))) : Carries S (x >>= f) (y >>= g) := by
  intro b hfound
  obtain ⟨⟨a, stop⟩, hx, hfound⟩ := bind_eq_ok.1 hfound
  obtain ⟨stop', hy, hstop⟩ := h a stop hx (hcloses a stop b hfound)
  obtain ⟨b', hfound', hrelated⟩ := h' a stop stop' hstop b hfound
  exact ⟨b', bind_eq_ok.2 ⟨_, hy, hfound'⟩, hrelated⟩

/-- If a pattern may end behind the first step whenever it may behind the next one, both steps are
read again. -/
theorem bindClosed {f g : α × Cursor → Reading (β × Cursor)} (h : CarriesClosed k x y)
    (hcloses : ∀ a stop b last, f (a, stop) = .ok (b, last) → Closes last → Closes stop)
    (h' : ∀ a stop stop', x = .ok (a, stop) → Deeper k stop.rest stop'.rest →
      CarriesClosed k (f (a, stop)) (g (a, stop'))) : CarriesClosed k (x >>= f) (y >>= g) := by
  intro b last hfound hlast
  obtain ⟨⟨a, stop⟩, hx, hfound⟩ := bind_eq_ok.1 hfound
  obtain ⟨stop', hy, hstop⟩ := h a stop hx (hcloses a stop b last hfound hlast)
  obtain ⟨last', hfound', hrelated⟩ := h' a stop stop' hx hstop b last hfound hlast
  exact ⟨last', bind_eq_ok.2 ⟨_, hy, hfound'⟩, hrelated⟩

end CarriesClosed

/-- Where a character stands behind blanks that ends patterns, a pattern may end. -/
theorem closes_of_current {c : Cursor} {ch : Char} (hc : c.skipBlank.current = some ch)
    (hch : endsPattern ch = true) : Closes c := by
  intro x hx
  obtain rfl := Option.some.inj (hc.symm.trans hx)
  exact hch

/-- If a pattern may end behind variants, it may in front of them. -/
theorem variantsFrom_closes {deep : Nested} {before list : List Variant} {c stop : Cursor}
    (h : variantsFrom deep before c = .ok (list, stop)) (hstop : Closes stop) : Closes c := by
  rw [variantsFrom_eq] at h
  split at h
  · rename_i hopen
    -- the next variant starts with a star or with a bracket
    have hbracket := hopen.2
    unfold skipStar at hbracket
    split at hbracket
    · rename_i hstar
      exact closes_of_current hstar rfl
    · exact closes_of_current hbracket rfl
  split at h
  · exact absurd h fail_ne_ok
  split at h
  · exact absurd h fail_ne_ok
  · obtain ⟨-, rfl⟩ := Prod.mk.inj (Except.ok.inj h)
    exact hstop

/-! ## Expressions and arguments -/

/-- What the rules for braces and parentheses read from a text they read from the text indented
further. -/
structure Nested.Deepens (k : Nat) (deep : Nested) : Prop where
  placeable : ∀ {wrappers wrappers' : List Nat} {c d : Cursor}, wrappers.length = wrappers'.length →
    Deeper k c.rest d.rest → Carries (Along (Deeper k) Eq)
      ((deep.placeable wrappers).run c) ((deep.placeable wrappers').run d)
  arguments : ∀ {c d : Cursor}, Deeper k c.rest d.rest →
    Carries (Along (Deeper k) Eq) (deep.arguments.run c) (deep.arguments.run d)

/-- Whether an argument may be added does not depend on the place. -/
theorem ArgumentsSoFar.push_again (soFar : ArgumentsSoFar) (given : Argument) (c d : Cursor) :
    Carries Eq (soFar.push c given) (soFar.push d given) := by
  cases given with
  | positional e =>
    rw [push, push]
    split
    · exact .ok rfl
    · exact .fail _ _ _
  | named a =>
    rw [push, push]
    split
    · exact .fail _ _ _
    · exact .ok rfl

namespace Nested.Deepens

variable {k : Nat} {deep : Nested} {c d : Cursor}

/-- The end of an argument list is read in the deeper text. -/
theorem close (soFar : ArgumentsSoFar) (hs : Deeper k c.rest d.rest) :
    Carries (Along (Deeper k) Eq) (soFar.close c) (soFar.close d) := by
  refine ((deeper_linewise k).expectChar hs (by decide)).bind fun stop stop' hstop => ?_
  cases CallArguments.build soFar.positional.reverse soFar.named.reverse with
  | ok arguments => exact .ok ⟨rfl, hstop⟩
  | error reason => exact .fail _ _ _

variable (h : deep.Deepens k)
include h

theorem termReference (hs : Deeper k c.rest d.rest) :
    Carries (Along (Deeper k) Eq) (Grammar.termReference deep c)
      (Grammar.termReference deep d) := by
  refine ((deeper_linewise k).expectChar hs (by decide)).bind fun start start' hstart => ?_
  refine ((deeper_linewise k).identifier hstart).bindSame fun name point point' _ hpoint => ?_
  refine ((deeper_linewise k).attributeAccessor hpoint).bindSame fun attr stop stop' _ hstop => ?_
  dsimp only
  rw [hstop.skipBlank.current_eq]
  split
  · exact (h.arguments hstop.skipBlank).bindSame fun _ _ _ _ hclose => .ok ⟨rfl, hclose⟩
  · exact .ok ⟨rfl, hstop⟩

theorem messageOrFunction (hs : Deeper k c.rest d.rest) :
    Carries (Along (Deeper k) Eq) (Grammar.messageOrFunction deep c)
      (Grammar.messageOrFunction deep d) := by
  refine ((deeper_linewise k).identifier hs).bindSame fun name point point' _ hpoint => ?_
  dsimp only
  rw [hpoint.skipBlank.current_eq]
  split
  · exact (h.arguments hpoint.skipBlank).bindSame fun _ _ _ _ hclose => .ok ⟨rfl, hclose⟩
  · exact ((deeper_linewise k).attributeAccessor hpoint).bindSame fun _ _ _ _ hstop =>
      .ok ⟨rfl, hstop⟩

theorem inlineExpression (hs : Deeper k c.rest d.rest) :
    Carries (Along (Deeper k) Eq) (Grammar.inlineExpression deep c)
      (Grammar.inlineExpression deep d) := by
  rw [Grammar.inlineExpression, Grammar.inlineExpression, (deeper_linewise k).startsNumber_eq hs,
    hs.current_eq]
  split
  · exact ((deeper_linewise k).number hs).bindSame fun _ _ _ _ hstop => .ok ⟨rfl, hstop⟩
  split
  · exact ((deeper_linewise k).stringLiteral hs).bindSame fun _ _ _ _ hstop => .ok ⟨rfl, hstop⟩
  split
  · exact h.termReference hs
  split
  · rename_i hdollar
    have hname := (deeper_linewise k).bump hs hdollar (by decide)
    exact ((deeper_linewise k).identifier hname).bindSame fun _ _ _ _ hstop => .ok ⟨rfl, hstop⟩
  split
  · exact (h.placeable rfl hs).bindSame fun _ _ _ _ hstop => .ok ⟨rfl, hstop⟩
  split
  · exact h.messageOrFunction hs
  · exact .error _ _

/-- An argument is read from the deeper text, though blanks may have grown around it. -/
theorem argument (hs : Deeper k c.rest d.rest) :
    Carries (Along (Deeper k) Eq) (Grammar.argument deep c) (Grammar.argument deep d) := by
  refine (h.inlineExpression hs).bindSame fun e stop stop' _ hstop => ?_
  have hpositional : Carries (Along (Deeper k) Eq)
      (.ok (Argument.positional e, stop)) (.ok (Argument.positional e, stop')) := .ok ⟨rfl, hstop⟩
  dsimp only
  split
  · rw [hstop.skipBlank.current_eq]
    split
    · rename_i hcolon
      have hvalue := ((deeper_linewise k).bump hstop.skipBlank hcolon (by decide)).skipBlank
      exact ((deeper_linewise k).literal hvalue).bindSame fun _ _ _ _ hlast => .ok ⟨rfl, hlast⟩
    · exact hpositional
  · exact hpositional

/-- One more argument is read from the deeper text, and blanks are skipped behind it. -/
theorem nextArgument (soFar : ArgumentsSoFar) (hs : Deeper k c.rest d.rest) :
    Carries (Along (Deeper k) Eq) (Grammar.nextArgument deep soFar c)
      (Grammar.nextArgument deep soFar d) := by
  refine (h.argument hs).bindSame fun given stop stop' _ hstop => ?_
  refine (soFar.push_again given c d).bind fun extended extended' hextended => ?_
  exact .ok ⟨hextended, hstop.skipBlank⟩

/-- The rest of an argument list is read from the deeper text, by induction on the text left. -/
theorem argumentsFrom (soFar : ArgumentsSoFar) {c d : Cursor} (hs : Deeper k c.rest d.rest) :
    Carries (Along (Deeper k) Eq) (Grammar.argumentsFrom deep soFar c)
      (Grammar.argumentsFrom deep soFar d) := by
  rw [argumentsFrom_eq deep soFar c, argumentsFrom_eq deep soFar d, hs.current_eq]
  split
  · exact close soFar hs
  · refine (h.nextArgument soFar hs).bindSame fun extended stop stop' hnext hstop => ?_
    have hlt : stop.bump.skipBlank.rest.length < c.rest.length :=
      Cursor.length_lt_of_lt (Cursor.lt_of_lt_of_le (nextArgument_lt hnext)
        (Cursor.le_trans (Cursor.le_bump _) (Cursor.le_skipBlank _)))
    dsimp only
    rw [hstop.current_eq]
    split
    · rename_i hcomma
      exact argumentsFrom extended ((deeper_linewise k).bump hstop hcomma (by decide)).skipBlank
    split
    · exact close extended hstop
    · exact .error _ _
termination_by c.rest.length

theorem callArguments (hs : Deeper k c.rest d.rest) :
    Carries (Along (Deeper k) Eq) (Grammar.arguments deep c) (Grammar.arguments deep d) :=
  ((deeper_linewise k).expectChar hs (by decide)).bind fun _ _ hstart =>
    h.argumentsFrom _ hstart.skipBlank

/-! ## Patterns and selections -/

/-- The common indentation is larger by as much as each line, so the texts are the same. -/
theorem patternFrom (b : PatternBuilder) (common : Option Nat) {c d : Cursor}
    (hs : Deeper k c.rest d.rest) :
    CarriesClosed k (Grammar.patternFrom deep b common c)
      (Grammar.patternFrom deep b (common.map (· + k)) d) := by
  rw [patternFrom_eq deep b common, patternFrom_eq deep b (common.map _), hs.current_eq]
  cases hc : c.current with
  | none => exact .ok hs
  | some ch =>
    dsimp only
    split
    · refine (h.placeable rfl hs).bindClosed ?_
      rintro ⟨e, next⟩ ⟨e', next'⟩ hp ⟨heq, hnext⟩
      obtain rfl : e = e' := heq
      have hlt := Cursor.length_lt_of_lt ((deep.placeable []).advances hp)
      exact patternFrom _ common hnext
    rename_i hopen
    split
    · exact .fail _ _ _
    rename_i hclose
    split
    · rename_i hfeed
      subst hfeed
      cases hn : continuation? c with
      | none =>
        -- the pattern ends here: a deeper line could go on with it, if it were not closed
        intro p stop hread hcloses
        obtain ⟨rfl, rfl⟩ := Prod.mk.inj (Except.ok.inj hread)
        rw [(hs.closes hcloses).continuation? (hs.current_eq.trans hc)]
        exact ⟨d, rfl, hs⟩
      | some next =>
        obtain ⟨resume, hn', hresume⟩ := hs.continuation? hc hn
        have hlt := Cursor.length_lt_of_lt (continuation?_lt hc hn)
        -- both indents grow by the same, so the spaces that are kept do not
        have hcommon : (common.map (· + k)).getD (next.indent + k) =
            common.getD next.indent + k := by
          cases common <;> rfl
        have htext : continuationText ⟨next.blankLines, next.indent + k, resume⟩
            (common.getD next.indent + k) = continuationText next (common.getD next.indent) := by
          rw [continuationText, continuationText, Nat.add_sub_add_right]
        rw [hn']
        dsimp only
        rw [hcommon, htext]
        exact patternFrom _ (some (common.getD next.indent)) hresume
    · rename_i hfeed
      have hlt := Cursor.length_lt_of_lt (Cursor.lt_skipWhile hc (isText_of_ne hopen hclose hfeed))
      obtain ⟨hlead, hskip⟩ := (deeper_linewise k).skipWhile hs (show isText '\n' = false by decide)
      rw [hlead]
      exact patternFrom _ common hskip
termination_by c.rest.length

/-- A pattern is read from the deeper text, if it ends at something that no line of a pattern
starts with. -/
theorem pattern (hs : Deeper k c.rest d.rest) :
    CarriesClosed k (Grammar.pattern deep c) (Grammar.pattern deep d) :=
  h.patternFrom .empty Option.none hs

omit h in
theorem variantKey (hs : Deeper k c.rest d.rest) :
    Carries (Along (Deeper k) Eq) (Grammar.variantKey c) (Grammar.variantKey d) := by
  refine ((deeper_linewise k).expectChar hs (by decide)).bind fun start start' hstart => ?_
  refine ((deeper_linewise k).keyText hstart.skipBlank).bindSame fun key stop stop' _ hstop => ?_
  exact ((deeper_linewise k).expectChar hstop.skipBlank (by decide)).bind fun _ _ hlast =>
    .ok ⟨rfl, hlast⟩

/-- A variant is read from the deeper text on the same condition as the pattern in it. -/
theorem variant (isDefault : Bool) (hs : Deeper k c.rest d.rest) :
    CarriesClosed k (Grammar.variant deep isDefault c) (Grammar.variant deep isDefault d) := by
  refine (variantKey hs).bindClosed ?_
  rintro ⟨key, start⟩ ⟨key', start'⟩ - ⟨heq, hstart⟩
  obtain rfl : key = key' := heq
  refine (h.pattern hstart.skipBlankInline.2).bindClosed ?_ fun value stop stop' _ hstop => ?_
  · intro value stop v last hread hlast
    cases value with
    | none => exact absurd hread fail_ne_ok
    | some value =>
      obtain ⟨-, rfl⟩ := Prod.mk.inj (Except.ok.inj hread)
      exact hlast
  · cases value with
    | none => exact .fail _ _ _
    | some value => exact .ok hstop

omit h in
/-- Skipping the star of a default variant keeps the texts related. -/
theorem skipStar (hs : Deeper k c.rest d.rest) :
    Deeper k (Grammar.skipStar c).rest (Grammar.skipStar d).rest := by
  rw [Grammar.skipStar, Grammar.skipStar, hs.current_eq]
  split
  · rename_i hstar
    exact (deeper_linewise k).bump hs hstar (by decide)
  · exact hs

/-- The rest of a variant list is read from the deeper text: each pattern ends at the bracket or
star of the next variant. -/
theorem variantsFrom (before : List Variant) {c d : Cursor} (hs : Deeper k c.rest d.rest) :
    CarriesClosed k (Grammar.variantsFrom deep before c)
      (Grammar.variantsFrom deep before d) := by
  have hstar := skipStar hs.skipBlank
  rw [variantsFrom_eq deep before c, variantsFrom_eq deep before d, hs.current_eq, hstar.current_eq,
    hs.skipBlank.current_eq]
  split
  · refine (h.variant (c.skipBlank.current == some '*') hstar).bindClosed ?_
      fun v stop stop' hread hstop => ?_
    · exact fun v stop list last hread hlast => variantsFrom_closes hread hlast
    · have hlt : stop.rest.length < c.rest.length :=
        Cursor.length_lt_of_lt (Cursor.lt_of_le_of_lt
          (Cursor.le_trans (Cursor.le_skipBlank c) (le_skipStar _)) (variant_lt hread))
      exact variantsFrom (v :: before) hstop
  split
  · exact .fail _ _ _
  split
  · exact .fail _ _ _
  · exact .ok hs
termination_by c.rest.length

theorem variants (hs : Deeper k c.rest d.rest) :
    CarriesClosed k (Grammar.variants deep c) (Grammar.variants deep d) := by
  rw [Grammar.variants, Grammar.variants, hs.current_eq]
  split
  · exact h.variantsFrom [] hs
  · exact .fail _ _ _

theorem body (hs : Deeper k c.rest d.rest) :
    CarriesClosed k (Grammar.body deep c) (Grammar.body deep d) := by
  refine (h.inlineExpression hs).bindClosed ?_
  rintro ⟨e, after⟩ ⟨e', after'⟩ - ⟨heq, hafter⟩
  obtain rfl : e = e' := heq
  dsimp only
  rw [(deeper_linewise k).atArrow_eq hafter.skipBlank]
  split
  · rename_i harrow
    have hlines := ((deeper_linewise k).advance_arrow hafter.skipBlank harrow).skipBlankInline
    refine ((Alike.refl e).checkSelector c d).bindClosed fun _ _ _ _ => ?_
    refine (h.variants hlines.2).bindClosed ?_ fun list stop stop' _ hstop => ?_
    · intro list stop found last hread hlast
      dsimp only at hread
      split at hread
      · obtain ⟨-, rfl⟩ := Prod.mk.inj (Except.ok.inj hread)
        exact hlast
      · exact absurd hread fail_ne_ok
    · dsimp only
      cases Selection.build e list with
      | ok selection => exact .ok hstop
      | error reason => exact .fail _ _ _
  · split
    · exact .fail _ _ _
    · exact .ok hafter

/-! ## Placeables -/

omit h in
/-- As many braces are closed in the deeper text, wherever they were opened. -/
theorem closeWrappers {wrappers wrappers' : List Nat} (e : Expression) {c d : Cursor}
    (hlength : wrappers.length = wrappers'.length) (hs : Deeper k c.rest d.rest) :
    Carries (Along (Deeper k) Eq) (Grammar.closeWrappers wrappers e c)
      (Grammar.closeWrappers wrappers' e d) := by
  induction wrappers generalizing wrappers' e c d with
  | nil =>
    obtain rfl := List.length_eq_zero_iff.1 hlength.symm
    exact .ok ⟨rfl, hs⟩
  | cons start wrappers ih =>
    obtain ⟨start', wrappers', rfl⟩ := List.exists_cons_of_length_eq_add_one hlength.symm
    rw [Grammar.closeWrappers, Grammar.closeWrappers, (deeper_linewise k).atArrow_eq hs.skipBlank]
    split
    · exact .error _ _
    · refine ((deeper_linewise k).expectChar hs.skipBlank (by decide)).bind
        fun close close' hclose => ?_
      exact ih _ (by simpa using hlength) hclose

/-- A body and its closing brace are read from the deeper text: the brace ends its last pattern. -/
theorem closeBody {wrappers wrappers' : List Nat} (hlength : wrappers.length = wrappers'.length)
    (hs : Deeper k c.rest d.rest) :
    Carries (Along (Deeper k) Eq) (Grammar.closeBody deep wrappers c)
      (Grammar.closeBody deep wrappers' d) := by
  refine (h.body hs).bindSame ?_ fun e stop stop' hstop => ?_
  · -- the brace behind the last variant ends its pattern
    intro e stop found hread
    obtain ⟨close, hclose, -⟩ := bind_eq_ok.1 hread
    exact closes_of_current (expectChar_eq_ok.1 hclose).1 rfl
  · refine ((deeper_linewise k).expectChar hstop.skipBlank (by decide)).bind
      fun close close' hclose => ?_
    exact closeWrappers e hlength hclose

/-- A placeable is read from the deeper text, however many braces it opens with. -/
theorem placeableIn {wrappers wrappers' : List Nat} (hlength : wrappers.length = wrappers'.length)
    (hs : Deeper k c.rest d.rest) :
    Carries (Along (Deeper k) Eq) (Grammar.placeable deep wrappers c)
      (Grammar.placeable deep wrappers' d) := by
  refine ((deeper_linewise k).expectChar hs (by decide)).bind fun start start' hstart => ?_
  dsimp only
  rw [hstart.skipBlank.current_eq]
  split
  · exact h.placeable (by simpa using hlength) hstart.skipBlank
  · exact h.closeBody hlength hstart.skipBlank

end Nested.Deepens

/-- On every level, what is read from a text is read from the text indented further. -/
theorem nested_deepens (k limit left : Nat) : (nested limit left).Deepens k := by
  induction left with
  | zero => exact ⟨fun _ _ => .fail _ _ _, fun _ => .fail _ _ _⟩
  | succ left ih =>
    refine ⟨fun hlength hs => ?_, fun hs => ?_⟩
    -- the rules of a level are made of those one level deeper
    · exact ih.placeableIn hlength hs
    · exact ih.callArguments hs

end Fluent.Grammar
