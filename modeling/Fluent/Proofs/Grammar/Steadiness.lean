/-
# Reading spaced texts

What can be read from a text can be read from the same text with blank lines added: the rules read
on to related places, and what they read may differ in texts and expressions, but not in what
decides whether it is accepted.

* `Nested.Steady` : the rules for braces and parentheses do so;
* `Nested.Steady.inlineExpression`, `Nested.Steady.pattern`, `Nested.Steady.body` : then so do the
  rules for what stands between them;
* `nested_steady` : the rules do so on every level.
-/
import Mathlib.Data.List.TakeWhile
import Fluent.Proofs.Grammar.Carrying

namespace Fluent.Grammar

/-! ## Expressions and arguments -/

/-- Both expressions are of one kind and have the same names; what their braces and parentheses hold
may differ. -/
inductive Alike : Expression → Expression → Prop
  | refl (e : Expression) : Alike e e
  | term (id : Identifier) (attr : Option Identifier) (a a' : CallArguments) :
      Alike (.term id attr (some a)) (.term id attr (some a'))
  | function (id : Identifier) (a a' : CallArguments) : Alike (.function id a) (.function id a')
  | placeable (e e' : Expression) : Alike (.placeable e) (.placeable e')

/-- Both arguments are given by position, or they are the same. -/
inductive AlikeArgument : Argument → Argument → Prop
  | positional (e e' : Expression) : AlikeArgument (.positional e) (.positional e')
  | named (a : NamedArgument) : AlikeArgument (.named a) (.named a)

/-- What the rules for braces and parentheses read from a text they read from every text that is
spaced further. -/
structure Nested.Steady (deep : Nested) : Prop where
  placeable : ∀ {wrappers wrappers' : List Nat} {c d : Cursor}, wrappers.length = wrappers'.length →
    Spaced c.rest d.rest → Carries (Beside fun _ _ => True)
      ((deep.placeable wrappers).run c) ((deep.placeable wrappers').run d)
  arguments : ∀ {c d : Cursor}, Spaced c.rest d.rest →
    Carries (Beside fun _ _ => True) (deep.arguments.run c) (deep.arguments.run d)

/-- The named arguments are the same. -/
theorem ArgumentsSoFar.push_carries {soFar soFar' : ArgumentsSoFar} {given given' : Argument}
    (h : soFar'.named = soFar.named) (hgiven : AlikeArgument given given') (c d : Cursor) :
    Carries (fun a b => b.named = a.named) (soFar.push c given) (soFar'.push d given') := by
  cases hgiven with
  | positional e e' =>
    rw [push, push, h]
    split
    · exact .ok rfl
    · exact .fail _ _ _
  | named a =>
    rw [push, push, h]
    split
    · exact .fail _ _ _
    · exact .ok rfl

/-- A list is closed in both texts: only the names of its arguments decide. -/
theorem ArgumentsSoFar.close_carries {soFar soFar' : ArgumentsSoFar} {c d : Cursor}
    (h : soFar'.named = soFar.named) (hnear : Near c.rest d.rest) :
    Carries (Beside fun _ _ => True) (soFar.close c) (soFar'.close d) := by
  refine (hnear.expectChar (by decide) (by decide)).bind fun stop stop' hstop => ?_
  rw [CallArguments.build, CallArguments.build, h]
  cases repeatedName? [] soFar.named.reverse with
  | some name => exact .fail _ _ _
  | none => exact .ok ⟨trivial, hstop⟩

/-! ## What may be selected on -/

/-- Expressions that are alike are refused as selectors on the same ground. -/
theorem Alike.selectorFault?_eq {e e' : Expression} (h : Alike e e') :
    e'.selectorFault? = e.selectorFault? := by
  cases h with
  | refl => rfl
  | term id attr => cases attr <;> rfl
  | function | placeable => rfl

/-- Expressions that are alike are accepted before an arrow in both texts. -/
theorem Alike.checkSelector {e e' : Expression} (h : Alike e e') (c d : Cursor) :
    Carries (fun _ _ => True) (Grammar.checkSelector e c) (Grammar.checkSelector e' d) := by
  -- what the check answers does not tell the expressions apart, only whether it fails
  intro found hfound
  refine ⟨(), ?_, trivial⟩
  cases h with
  | refl e =>
    cases e with
    | message | placeable | select => exact absurd hfound fail_ne_ok
    | term id attr =>
      cases attr with
      | none => exact absurd hfound fail_ne_ok
      | some id => rfl
    | string | number | var | function => rfl
  | term id attr =>
    cases attr with
    | none => exact absurd hfound fail_ne_ok
    | some id => rfl
  | function => rfl
  | placeable => exact absurd hfound fail_ne_ok

/-- Only the marks of the variants tell which of them are default. -/
theorem defaultIndices_eq (list : List Variant) :
    defaultIndices list = ((list.map Variant.isDefault).zipIdx.filter (·.1)).map (·.2) := by
  rw [defaultIndices, List.zipIdx_map, List.filter_map, List.map_map]
  rfl

/-- A selection is built from alike parts: only the selector's form and the default marks
decide. -/
theorem selection_build_congr {e e' : Expression} {list list' : List Variant} {s : Selection}
    (he : e'.selectorFault? = e.selectorFault?)
    (hlist : list'.map Variant.isDefault = list.map Variant.isDefault)
    (h : Selection.build e list = .ok s) : ∃ s', Selection.build e' list' = .ok s' := by
  have hempty : list'.isEmpty = list.isEmpty := by
    rw [← List.isEmpty_map (f := Variant.isDefault), hlist, List.isEmpty_map]
  -- the checks look at the selector, at whether there are variants, and at their marks
  rw [Selection.build, defaultIndices_eq] at h
  rw [Selection.build, defaultIndices_eq, he, hempty, hlist]
  split at h
  · cases h
  split at h
  · cases h
  · rename_i hne
    rw [if_neg hne]
    split at h
    · cases h
    · exact ⟨_, rfl⟩
    · cases h

/-! ## Patterns in the making -/

/-- Both builders have come equally far: what they hold differs, but not whether it is empty or
nothing but spaces. -/
structure Twin (b b' : PatternBuilder) : Prop where
  elements : b'.elements = [] ↔ b.elements = []
  text : b'.text = [] ↔ b.text = []
  spaces : Spaces b'.text ↔ Spaces b.text

/-- A builder finishes with no pattern exactly when it holds only spaces. -/
theorem PatternBuilder.finish_eq_none {b : PatternBuilder} :
    b.finish = none ↔ Spaces b.text ∧ b.elements = [] := by
  have hdrop : b.text.dropWhile (· == ' ') = [] ↔ Spaces b.text := List.dropWhile_eq_nil_iff
  rw [finish, flush, ← hdrop]
  cases b.text.dropWhile (· == ' ') with
  | nil => simp
  | cons ch text => simp

namespace Twin

variable {b b' : PatternBuilder}

/-- A builder is its own twin. -/
theorem refl (b : PatternBuilder) : Twin b b :=
  ⟨Iff.rfl, Iff.rfl, Iff.rfl⟩

/-- Twins are both empty or both not. -/
theorem isEmpty_eq (h : Twin b b') : b'.isEmpty = b.isEmpty := by
  rw [PatternBuilder.isEmpty, PatternBuilder.isEmpty, Bool.eq_iff_iff]
  simp [h.elements, h.text]

/-- Twins both finish with a pattern or both do not. -/
theorem finish_isSome (h : Twin b b') : b'.finish.isSome = b.finish.isSome := by
  rw [Bool.eq_iff_iff, ← not_iff_not]
  simp [PatternBuilder.finish_eq_none, h.elements, h.spaces]

/-- Twins stay twins when the same text is pushed. -/
theorem pushText (h : Twin b b') (text : List Char) :
    Twin (b.pushText text) (b'.pushText text) := by
  refine ⟨h.elements, ?_, ?_⟩
  · simp [PatternBuilder.pushText, h.text]
  · have hspaces := h.spaces
    simp only [Spaces, PatternBuilder.pushText, List.forall_mem_append] at hspaces ⊢
    rw [hspaces]

/-- A line that is added holds a line feed at least. -/
theorem pushLine (h : Twin b b') (next next' : Continuation) (common common' : Nat) :
    Twin (b.pushText (continuationText next common))
      (b'.pushText (continuationText next' common')) := by
  have hfeed : ∀ (next : Continuation) (common : Nat) (b : PatternBuilder),
      '\n' ∈ (b.pushText (continuationText next common)).text := by
    intro next common b
    simp [PatternBuilder.pushText, continuationText]
  have hne : ∀ {text : List Char}, '\n' ∈ text → text ≠ [] ∧ ¬ Spaces text := by
    refine fun hmem => ⟨List.ne_nil_of_mem hmem, fun hspaces => ?_⟩
    exact absurd (hspaces _ hmem) (by decide)
  have hleft := hne (hfeed next common b)
  have hright := hne (hfeed next' common' b')
  exact ⟨h.elements, iff_of_false hright.1 hleft.1, iff_of_false hright.2 hleft.2⟩

/-- Behind a placeable any two builders are twins. -/
theorem pushPlaceable (b b' : PatternBuilder) (e e' : Expression) :
    Twin (b.pushPlaceable e) (b'.pushPlaceable e') :=
  ⟨by simp [PatternBuilder.pushPlaceable], Iff.rfl, Iff.rfl⟩

end Twin

namespace Nested.Steady

variable {deep : Nested} {c d : Cursor} (h : deep.Steady)
include h

/-- A term reference is read from the spaced text, up to its arguments. -/
theorem termReference (hs : Spaced c.rest d.rest) :
    Carries (Beside Alike) (Grammar.termReference deep c) (Grammar.termReference deep d) := by
  refine (hs.expectChar (by decide)).bind fun start start' hstart => ?_
  refine hstart.identifier.bind ?_
  rintro ⟨name, point⟩ ⟨name', point'⟩ ⟨hname, hpoint⟩
  obtain rfl : name = name' := hname
  refine hpoint.attributeAccessor.bind ?_
  rintro ⟨attr, stop⟩ ⟨attr', stop'⟩ ⟨hattr, hstop⟩
  obtain rfl : attr = attr' := hattr
  have hnear : Near stop.skipBlank.rest stop'.skipBlank.rest := Near.skipBlank (.inl hstop)
  dsimp only
  -- what was added in between is blank, so both see the same bracket or none
  rw [hnear.current_eq]
  split
  · rename_i hopen
    have hcall := hnear.spaced hopen (by decide)
    exact (h.arguments hcall).bind fun _ _ hclose => .ok ⟨.term .., hclose.2⟩
  · exact .ok ⟨.refl _, hstop⟩

theorem messageOrFunction (hs : Spaced c.rest d.rest) :
    Carries (Beside Alike) (Grammar.messageOrFunction deep c)
      (Grammar.messageOrFunction deep d) := by
  refine hs.identifier.bind ?_
  rintro ⟨name, point⟩ ⟨name', point'⟩ ⟨hname, hpoint⟩
  obtain rfl : name = name' := hname
  have hnear : Near point.skipBlank.rest point'.skipBlank.rest := Near.skipBlank (.inl hpoint)
  dsimp only
  rw [hnear.current_eq]
  split
  · rename_i hopen
    have hcall := hnear.spaced hopen (by decide)
    exact (h.arguments hcall).bind fun _ _ hclose => .ok ⟨.function .., hclose.2⟩
  · refine hpoint.attributeAccessor.bind ?_
    rintro ⟨attr, stop⟩ ⟨attr', stop'⟩ ⟨hattr, hstop⟩
    obtain rfl : attr = attr' := hattr
    exact .ok ⟨.refl _, hstop⟩

/-- An inline expression is read from the spaced text, as one of its form. -/
theorem inlineExpression (hs : Spaced c.rest d.rest) :
    Carries (Beside Alike) (Grammar.inlineExpression deep c)
      (Grammar.inlineExpression deep d) := by
  rw [Grammar.inlineExpression, Grammar.inlineExpression, hs.startsNumber_eq, hs.current_eq]
  split
  · refine hs.number.bind ?_
    rintro ⟨n, stop⟩ ⟨n', stop'⟩ ⟨hn, hstop⟩
    obtain rfl : n = n' := hn
    exact .ok ⟨.refl _, hstop⟩
  split
  · refine hs.stringLiteral.bind ?_
    rintro ⟨s, stop⟩ ⟨s', stop'⟩ ⟨hs', hstop⟩
    obtain rfl : s = s' := hs'
    exact .ok ⟨.refl _, hstop⟩
  split
  · exact h.termReference hs
  split
  · rename_i hdollar
    have hname := hs.bump hdollar (by decide)
    refine hname.identifier.bind ?_
    rintro ⟨name, stop⟩ ⟨name', stop'⟩ ⟨heq, hstop⟩
    obtain rfl : name = name' := heq
    exact .ok ⟨.refl _, hstop⟩
  split
  · exact (h.placeable rfl hs).bind fun _ _ hstop => .ok ⟨.placeable .., hstop.2⟩
  split
  · exact h.messageOrFunction hs
  · exact .error _ _

/-- An argument is read from the spaced text, under the same name. -/
theorem argument (hs : Spaced c.rest d.rest) :
    Carries (Beside AlikeArgument) (Grammar.argument deep c) (Grammar.argument deep d) := by
  refine (h.inlineExpression hs).bind ?_
  rintro ⟨e, stop⟩ ⟨e', stop'⟩ ⟨he, hstop⟩
  have hpositional : Carries (Beside AlikeArgument)
      (.ok (.positional e, stop)) (.ok (.positional e', stop')) := .ok ⟨.positional .., hstop⟩
  cases he with
  | refl e =>
    -- only the name of a message may turn out to be that of an argument
    dsimp only
    split
    · rename_i id
      have hcolon : Near stop.skipBlank.rest stop'.skipBlank.rest := Near.skipBlank (.inl hstop)
      rw [hcolon.current_eq]
      split
      · rename_i hc
        have hvalue := (hcolon.spaced hc (by decide)).bump hc (by decide)
        rcases Near.skipBlank (.inl hvalue) with hvalue | hheads
        · refine hvalue.literal.bind ?_
          rintro ⟨l, last⟩ ⟨l', last'⟩ ⟨hl, hlast⟩
          obtain rfl : l = l' := hl
          exact .ok ⟨.named _, hlast⟩
        · refine .of_ne_ok (fun found hfound => ?_) _
          obtain ⟨value, hvalue, -⟩ := bind_eq_ok.1 hfound
          exact hheads.left.literal_ne_ok value hvalue
      · exact hpositional
    · exact hpositional
  | term | function | placeable => exact hpositional

/-- One more argument is read from the spaced text; blanks around it may differ. -/
theorem nextArgument {soFar soFar' : ArgumentsSoFar} (hnamed : soFar'.named = soFar.named)
    (hs : Spaced c.rest d.rest) :
    Carries (fun p q => q.1.named = p.1.named ∧ Near p.2.rest q.2.rest)
      (Grammar.nextArgument deep soFar c) (Grammar.nextArgument deep soFar' d) := by
  refine (h.argument hs).bind ?_
  rintro ⟨given, stop⟩ ⟨given', stop'⟩ ⟨hgiven, hstop⟩
  refine (ArgumentsSoFar.push_carries hnamed hgiven c d).bind fun extended extended' hextended => ?_
  exact .ok ⟨hextended, Near.skipBlank (.inl hstop)⟩

/-- The rest of an argument list is read from the spaced text, by induction on the text left. -/
theorem argumentsFrom {soFar soFar' : ArgumentsSoFar} {c d : Cursor}
    (hnamed : soFar'.named = soFar.named) (hnear : Near c.rest d.rest) :
    Carries (Beside fun _ _ => True) (Grammar.argumentsFrom deep soFar c)
      (Grammar.argumentsFrom deep soFar' d) := by
  rcases hnear with hs | hheads
  · rw [argumentsFrom_eq deep soFar, argumentsFrom_eq deep soFar', hs.current_eq]
    split
    · exact ArgumentsSoFar.close_carries hnamed (.inl hs)
    · refine (h.nextArgument hnamed hs).bind_of_ok ?_
      rintro ⟨extended, stop⟩ ⟨extended', stop'⟩ hnext ⟨hextended, hstop⟩
      have hlt : stop.bump.skipBlank.rest.length < c.rest.length :=
        Cursor.length_lt_of_lt (Cursor.lt_of_lt_of_le (nextArgument_lt hnext)
          (Cursor.le_trans (Cursor.le_bump _) (Cursor.le_skipBlank _)))
      dsimp only at hextended hstop ⊢
      rw [hstop.current_eq]
      split
      · rename_i hcomma
        have hmore := (hstop.spaced hcomma (by decide)).bump hcomma (by decide)
        exact argumentsFrom hextended (Near.skipBlank (.inl hmore))
      split
      · exact ArgumentsSoFar.close_carries hextended hstop
      · exact .error _ _
  -- in front of an entry nothing was read, as no arguments stand there
  · exact .of_ne_ok (hheads.left.argumentsFrom_ne_ok soFar) _
termination_by c.rest.length

theorem callArguments (hs : Spaced c.rest d.rest) :
    Carries (Beside fun _ _ => True) (Grammar.arguments deep c) (Grammar.arguments deep d) := by
  refine (hs.expectChar (by decide)).bind fun start start' hstart => ?_
  exact h.argumentsFrom rfl (Near.skipBlank (.inl hstart))

/-! ## Patterns and selections -/

/-- The rest of a pattern is read from the spaced text, and is empty in both or in neither. -/
theorem patternFrom {b b' : PatternBuilder} {c d : Cursor} (hb : Twin b b') (common : Option Nat)
    (hs : Spaced c.rest d.rest) :
    Carries (Beside fun p q => q.isSome = p.isSome) (Grammar.patternFrom deep b common c)
      (Grammar.patternFrom deep b' common d) := by
  have hend : Carries (Beside fun p q => q.isSome = p.isSome) (.ok (b.finish, c))
      (.ok (b'.finish, d)) := .ok ⟨hb.finish_isSome, hs⟩
  rw [patternFrom_eq deep b, patternFrom_eq deep b', hs.current_eq]
  cases hc : c.current with
  | none => exact hend
  | some ch =>
    dsimp only
    split
    · refine (h.placeable rfl hs).bind_of_ok ?_
      rintro ⟨e, next⟩ ⟨e', next'⟩ hp ⟨_, hnext⟩
      have hlt := Cursor.length_lt_of_lt ((deep.placeable []).advances hp)
      exact patternFrom (.pushPlaceable b b' e e') common hnext
    rename_i hopen
    split
    · exact .fail _ _ _
    rename_i hclose
    split
    · rename_i hfeed
      subst hfeed
      -- an added line is blank, so it neither continues the pattern nor ends it
      rcases hs.continuation? hc with ⟨hnone, hnone'⟩ | ⟨next, next', hn, hn', hindent, hresume⟩
      · rw [hnone, hnone']
        exact hend
      · have hlt := Cursor.length_lt_of_lt (continuation?_lt hc hn)
        rw [hn, hn', hb.isEmpty_eq]
        dsimp only
        rw [hindent]
        refine patternFrom ?_ _ hresume
        split
        · exact hb
        · exact hb.pushLine ..
    · rename_i hfeed
      have hlt := Cursor.length_lt_of_lt (Cursor.lt_skipWhile hc (isText_of_ne hopen hclose hfeed))
      obtain ⟨hlead, hskip⟩ := hs.skipWhile (show isText '\n' = false by decide)
      rw [hlead]
      exact patternFrom (hb.pushText _) common hskip
termination_by c.rest.length

/-- A pattern is read from the spaced text, and is empty in both or in neither. -/
theorem pattern (hs : Spaced c.rest d.rest) :
    Carries (Beside fun p q => q.isSome = p.isSome) (Grammar.pattern deep c)
      (Grammar.pattern deep d) :=
  h.patternFrom (.refl _) Option.none hs

omit h in
theorem variantKey (hs : Spaced c.rest d.rest) :
    Carries (Beside Eq) (Grammar.variantKey c) (Grammar.variantKey d) := by
  refine (hs.expectChar (by decide)).bind fun start start' hstart => ?_
  rcases Near.skipBlank (.inl hstart) with hkey | hheads
  · refine hkey.keyText.bind ?_
    rintro ⟨key, stop⟩ ⟨key', stop'⟩ ⟨heq, hstop⟩
    obtain rfl : key = key' := heq
    have hclose : Near stop.skipBlank.rest stop'.skipBlank.rest := Near.skipBlank (.inl hstop)
    exact (hclose.expectChar (by decide) (by decide)).bind fun _ _ hlast => .ok ⟨rfl, hlast⟩
  -- the start of an entry is no key with a bracket behind it
  · refine .of_ne_ok (fun found hfound => ?_) _
    obtain ⟨⟨key, stop⟩, hkey, hfound⟩ := bind_eq_ok.1 hfound
    obtain ⟨close, hclose, -⟩ := bind_eq_ok.1 hfound
    have hcurrent := (expectChar_eq_ok.1 hclose).1
    exact absurd (hcurrent.symm.trans (hheads.left.keyText hkey)) (by decide)

/-- A variant is read from the spaced text, with the same default mark. -/
theorem variant (isDefault : Bool) (hs : Spaced c.rest d.rest) :
    Carries (Beside fun v w => w.isDefault = v.isDefault) (Grammar.variant deep isDefault c)
      (Grammar.variant deep isDefault d) := by
  refine (variantKey hs).bind ?_
  rintro ⟨key, start⟩ ⟨key', start'⟩ ⟨_, hstart⟩
  have hvalue := h.pattern hstart.skipBlankInline.2
  refine hvalue.bind ?_
  rintro ⟨value, stop⟩ ⟨value', stop'⟩ ⟨hsome, hstop⟩
  cases value with
  | none => exact .fail _ _ _
  | some value =>
    obtain ⟨other, rfl⟩ := Option.isSome_iff_exists.1 hsome
    exact .ok ⟨rfl, hstop⟩

omit h in
/-- Skipping the star of a default variant keeps the texts near. -/
theorem skipStar (hnear : Near c.rest d.rest) :
    Near (Grammar.skipStar c).rest (Grammar.skipStar d).rest := by
  rw [Grammar.skipStar, Grammar.skipStar, hnear.current_eq]
  split
  · rename_i hstar
    exact .inl ((hnear.spaced hstar (by decide)).bump hstar (by decide))
  · exact hnear

/-- The rest of a variant list is read from the spaced text, with the same default marks. -/
theorem variantsFrom {before before' : List Variant} {c d : Cursor}
    (hbefore : before'.map Variant.isDefault = before.map Variant.isDefault)
    (hs : Spaced c.rest d.rest) :
    Carries (Beside fun p q => q.map Variant.isDefault = p.map Variant.isDefault)
      (Grammar.variantsFrom deep before c) (Grammar.variantsFrom deep before' d) := by
  have hline : Near c.skipBlank.rest d.skipBlank.rest := Near.skipBlank (.inl hs)
  have hstar := skipStar hline
  have hempty : before'.isEmpty = before.isEmpty := by
    rw [← List.isEmpty_map (f := Variant.isDefault), hbefore, List.isEmpty_map]
  rw [variantsFrom_eq deep before, variantsFrom_eq deep before', hs.current_eq, hstar.current_eq,
    hline.current_eq, hempty]
  split
  · rename_i hopen
    have hv := h.variant (c.skipBlank.current == some '*') (hstar.spaced hopen.2 (by decide))
    refine hv.bind_of_ok ?_
    rintro ⟨v, stop⟩ ⟨v', stop'⟩ hread ⟨hdefault, hstop⟩
    have hlt : stop.rest.length < c.rest.length :=
      Cursor.length_lt_of_lt (Cursor.lt_of_le_of_lt
        (Cursor.le_trans (Cursor.le_skipBlank c) (le_skipStar _)) (variant_lt hread))
    refine variantsFrom ?_ hstop
    rw [List.map_cons, List.map_cons, hbefore]
    exact congrArg (· :: _) hdefault
  split
  · exact .fail _ _ _
  split
  · exact .fail _ _ _
  · refine .ok ⟨?_, hs⟩
    show before'.reverse.map _ = before.reverse.map _
    rw [List.map_reverse, List.map_reverse, hbefore]
termination_by c.rest.length

/-- A variant list is read from the spaced text, with the same default marks. -/
theorem variants (hs : Spaced c.rest d.rest) :
    Carries (Beside fun p q => q.map Variant.isDefault = p.map Variant.isDefault)
      (Grammar.variants deep c) (Grammar.variants deep d) := by
  rw [Grammar.variants, Grammar.variants, hs.current_eq]
  split
  · exact h.variantsFrom rfl hs
  · exact .fail _ _ _

theorem body (hs : Spaced c.rest d.rest) :
    Carries (Beside fun _ _ => True) (Grammar.body deep c) (Grammar.body deep d) := by
  refine (h.inlineExpression hs).bind ?_
  rintro ⟨e, after⟩ ⟨e', after'⟩ ⟨he, hafter⟩
  have hnear : Near after.skipBlank.rest after'.skipBlank.rest := Near.skipBlank (.inl hafter)
  dsimp only
  rw [hnear.atArrow_eq]
  split
  · rename_i harrow
    -- an arrow is no start of an entry, so the texts go on side by side
    have hspaced : Spaced after.skipBlank.rest after'.skipBlank.rest := by
      refine hnear.resolve_right fun hheads => ?_
      rw [hheads.left.atArrow_eq_false] at harrow
      cases harrow
    have hlines := (hspaced.advance_arrow harrow).skipBlankInline.2
    refine (he.checkSelector c d).bind fun _ _ _ => ?_
    refine (h.variants hlines).bind ?_
    rintro ⟨list, stop⟩ ⟨list', stop'⟩ ⟨hlist, hstop⟩
    dsimp only
    cases hbuild : Selection.build e list with
    | error reason => exact .fail _ _ _
    | ok selection =>
      obtain ⟨selection', hbuild'⟩ := selection_build_congr he.selectorFault?_eq hlist hbuild
      rw [hbuild']
      exact .ok ⟨trivial, hstop⟩
  · cases he with
    | refl e =>
      split
      · exact .fail _ _ _
      · exact .ok ⟨trivial, hafter⟩
    | term id attr =>
      cases attr with
      | none => exact .ok ⟨trivial, hafter⟩
      | some id => exact .fail _ _ _
    | function | placeable => exact .ok ⟨trivial, hafter⟩

/-! ## Placeables -/

omit h in
/-- As many braces are closed in the spaced text. -/
theorem closeWrappers {wrappers wrappers' : List Nat} {e e' : Expression} {c d : Cursor}
    (hlength : wrappers.length = wrappers'.length) (hs : Spaced c.rest d.rest) :
    Carries (Beside fun _ _ => True) (Grammar.closeWrappers wrappers e c)
      (Grammar.closeWrappers wrappers' e' d) := by
  induction wrappers generalizing wrappers' e e' c d with
  | nil =>
    obtain rfl := List.length_eq_zero_iff.1 hlength.symm
    exact .ok ⟨trivial, hs⟩
  | cons start wrappers ih =>
    obtain ⟨start', wrappers', rfl⟩ := List.exists_cons_of_length_eq_add_one hlength.symm
    have hnear : Near c.skipBlank.rest d.skipBlank.rest := Near.skipBlank (.inl hs)
    rw [Grammar.closeWrappers, Grammar.closeWrappers, hnear.atArrow_eq]
    split
    · exact .error _ _
    · refine (hnear.expectChar (by decide) (by decide)).bind fun close close' hclose => ?_
      exact ih (by simpa using hlength) hclose

theorem closeBody {wrappers wrappers' : List Nat} (hlength : wrappers.length = wrappers'.length)
    (hnear : Near c.rest d.rest) :
    Carries (Beside fun _ _ => True) (Grammar.closeBody deep wrappers c)
      (Grammar.closeBody deep wrappers' d) := by
  rcases hnear with hs | hheads
  · refine (h.body hs).bind ?_
    rintro ⟨e, stop⟩ ⟨e', stop'⟩ ⟨_, hstop⟩
    have hclose : Near stop.skipBlank.rest stop'.skipBlank.rest := Near.skipBlank (.inl hstop)
    refine (hclose.expectChar (by decide) (by decide)).bind fun close close' hclose => ?_
    exact closeWrappers hlength hclose
  · exact .of_ne_ok (hheads.left.closeBody_ne_ok wrappers) _

/-- A placeable is read from the spaced text, however many braces it opens with. -/
theorem placeableIn {wrappers wrappers' : List Nat} (hlength : wrappers.length = wrappers'.length)
    (hs : Spaced c.rest d.rest) :
    Carries (Beside fun _ _ => True) (Grammar.placeable deep wrappers c)
      (Grammar.placeable deep wrappers' d) := by
  refine (hs.expectChar (by decide)).bind fun start start' hstart => ?_
  have hnear : Near start.skipBlank.rest start'.skipBlank.rest := Near.skipBlank (.inl hstart)
  dsimp only
  rw [hnear.current_eq]
  split
  · rename_i hopen
    exact h.placeable (by simpa using hlength) (hnear.spaced hopen (by decide))
  · exact h.closeBody hlength hnear

end Nested.Steady

/-- On every level, what can be read from a text can be read from the text with blank lines
added. -/
theorem nested_steady (limit left : Nat) : (nested limit left).Steady := by
  induction left with
  | zero => exact ⟨fun _ _ => .fail _ _ _, fun _ => .fail _ _ _⟩
  | succ left ih =>
    refine ⟨fun hlength hs => ?_, fun hs => ?_⟩
    -- the rules of a level are made of those one level deeper
    · exact ih.placeableIn hlength hs
    · exact ih.callArguments hs

end Fluent.Grammar
