/-
# Printed placeables are read again

A placeable holds an inline expression or a selection.  With it the rules close: whatever is read
between braces or parentheses, on any level of nesting, is printed as a text that is read again.

* `body_ok` : what was read between braces;
* `InlineReadable.placed_reads`, `SelectionReadable.placed_reads` : such a body is printed as a text
  that is read again;
* `canonical_nested` : the rules of every level read again what they have read;
* `reads_nested` : what holds of everything that is read in braces and parentheses.
-/
import Fluent.Proofs.Grammar.Arguments
import Fluent.Proofs.Grammar.Variants

namespace Fluent.Grammar

/-! ## What was read -/

/-- What can be read as a selection. -/
structure SelectionReadable (deep : Nested) (s : Selection) : Prop where
  selector : InlineReadable deep s.selector
  variants : ∀ v ∈ s.variants, VariantReadable deep v
  build : Selection.build s.selector s.variants = .ok s

/-- What can be read between braces. -/
def BodyReadable (deep : Nested) : Expression → Prop
  | .select s => SelectionReadable deep s
  | .term _ (some _) _ => False
  | e => InlineReadable deep e

/-- What was read between braces. -/
theorem body_ok {deep : Nested} {c stop : Cursor} {e : Expression}
    (h : body deep c = .ok (e, stop)) (hclean : '\r' ∉ c.rest) : BodyReadable deep e := by
  obtain ⟨⟨selector, after⟩, hs, h⟩ := bind_eq_ok.1 h
  have hread := inlineExpression_ok hs hclean
  dsimp only at h
  split at h
  · obtain ⟨-, -, h⟩ := bind_eq_ok.1 h
    obtain ⟨⟨list, last⟩, hv, h⟩ := bind_eq_ok.1 h
    -- the variants start behind the arrow, where the text still holds no carriage returns
    have hle : c ≤ (after.skipBlank.advance 2).skipBlankInline :=
      Cursor.le_trans (Cursor.le_of_lt (inlineExpression_lt hs))
        (Cursor.le_trans (Cursor.le_skipBlank after)
          (Cursor.le_trans (Cursor.le_advance 2 _) (Cursor.le_skipBlankInline _)))
    dsimp only at h
    split at h
    · rename_i s hbuild
      obtain ⟨rfl, -⟩ := Prod.mk.inj (Except.ok.inj h)
      obtain ⟨-, rfl, rfl⟩ := Selection.build_eq_ok_iff.1 hbuild
      refine ⟨hread, ?_, hbuild⟩
      unfold variants at hv
      split at hv
      · exact variantsFrom_ok hv (Cursor.not_mem_of_le hle hclean) (by simp)
      · exact absurd hv fail_ne_ok
    · exact absurd h fail_ne_ok
  · split at h
    · exact absurd h fail_ne_ok
    · rename_i hterm
      obtain ⟨rfl, -⟩ := Prod.mk.inj (Except.ok.inj h)
      cases selector with
      | select s => exact absurd hread (by simp [InlineReadable])
      | term id attr arguments =>
        cases attr with
        | none => exact hread
        | some a => exact absurd rfl (hterm id a arguments)
      | _ => exact hread

/-! ## How they are printed -/

/-- An expression that is no selection is printed between braces as it is without them. -/
theorem print_true_of_ne_select {e : Expression} (h : ∀ s, e ≠ .select s) :
    e.print true = '{' :: ' ' :: (e.print false ++ [' ', '}']) := by
  cases e with
  | select s => exact absurd rfl (h s)
  | term id attr arguments => cases arguments <;> simp [Expression.print, inBraces]
  | _ => simp [Expression.print, inBraces]

/-- A selection in braces is printed with its selector, an arrow and a line for each variant. -/
theorem print_select (s : Selection) :
    (Expression.select s).print true = '{' :: ' ' :: (s.selector.print false ++
      (' ' :: '-' :: '>' :: (variantLines s.variants ++ ['\n', '}']))) := by
  obtain ⟨selector, variants, index⟩ := s
  have hlines := printVariants_eq variants
  have htail : variantLines variants ++ ['\n', '}'] =
      (variantLines variants ++ ['\n']) ++ ['}'] := by
    simp
  rw [Expression.print, Selection.print, htail, ← hlines]
  simp

/-! ## Reading printed bodies -/

/-- A body is closed by its brace. -/
theorem closeBody_of_body {deep : Nested} {c last stop : Cursor} {e : Expression}
    (hbody : body deep c = .ok (e, last)) (hclose : last.skipBlank.Passes ['}'] stop) :
    closeBody deep [] c = .ok (e, stop) := by
  rw [closeBody, hbody]
  show (expectChar last.skipBlank '}' >>= _) = _
  rw [expectChar_eq_ok_iff.2 hclose]
  rfl

/-- In front of a closing brace, blanks or not, an inline expression is all that the braces hold. -/
theorem body_of_inline {deep : Nested} {c last : Cursor} {e : Expression}
    (hread : inlineExpression deep c = .ok (e, last))
    (hterm : ∀ id a arguments, e ≠ .term id (some a) arguments)
    (hclose : last.skipBlank.current = some '}') : body deep c = .ok (e, last) := by
  rw [body, hread]
  show (if atArrow last.skipBlank then _ else _) = _
  rw [atArrow_eq_false hclose (by decide), if_neg (by decide)]
  cases e with
  | term id attr arguments =>
    cases attr with
    | none => rfl
    | some a => exact absurd rfl (hterm id a arguments)
  | _ => rfl

/-- Behind the brace and its space the inline expression starts. -/
theorem start_of_open {deep : Nested} (hdeep : Canonical deep) {e : Expression}
    (he : InlineReadable deep e) {n : Nat} {c stop : Cursor} {text : List Char}
    (hp : c.Passes ('{' :: ' ' :: (indentBy n false (e.print false) ++ text)) stop) :
    ∃ start last, expectChar c '{' = .ok c.bump ∧ c.bump.skipBlank = start ∧
      start.Passes (indentBy n false (e.print false)) last ∧ last.Passes text stop := by
  obtain ⟨space, hopen, hp⟩ := hp.uncons
  obtain ⟨start, hspace, hp⟩ := hp.uncons
  obtain ⟨last, hprint, hrest⟩ := hp.split
  have hargument : ArgumentReadable deep (.positional e) := he
  obtain ⟨ch, rest, hcons, hs, hf, -⟩ := (hargument.readAs hdeep n).cons
  have hc : start.current = some ch := by
    have hfirst : indentBy n false (e.print false) = ch :: rest := hcons
    rw [hfirst] at hprint
    exact hprint.current_cons
  rw [Cursor.bump_eq hopen]
  exact ⟨start, last, expectChar_eq_ok_iff.2 hopen,
    skipBlank_eq_of_passes hspace (by simp [Blank, isBlank]) hc hs hf, hprint, hrest⟩

/-- In front of a space and something that opens no parenthesis an expression ends. -/
theorem expressionEnds_of_space {c next : Cursor} {ch : Char} (hp : c.Passes [' '] next)
    (hc : next.current = some ch) (hs : ch ≠ ' ') (hf : ch ≠ '\n') (hopen : ch ≠ '(') :
    ExpressionEnds c ∧ c.skipBlank = next := by
  have hskip : c.skipBlank = next := skipBlank_eq_of_passes hp (by simp [Blank, isBlank]) hc hs hf
  refine ⟨⟨?_, ?_⟩, hskip⟩
  · rw [hp.1]
    exact stops_cons.2 (by decide)
  · rw [hskip, hc]
    exact fun h => hopen (Option.some.inj h)

/-- What may be selected on passes the check in front of the arrow. -/
theorem checkSelector_of_fault? {selector : Expression} (h : selector.selectorFault? = none)
    (c : Cursor) : checkSelector selector c = .ok () := by
  cases selector with
  | term id attr arguments =>
    cases attr with
    | none => cases h
    | some a => rfl
  | message | select | placeable => cases h
  | _ => rfl

/-- A printed inline expression is read again between its braces. -/
theorem InlineReadable.placed_reads {deep : Nested} (hdeep : Canonical deep) {e : Expression}
    (he : InlineReadable deep e) (hterm : ∀ id a arguments, e ≠ .term id (some a) arguments)
    (hselect : ∀ s, e ≠ .select s) (n : Nat) {c stop : Cursor}
    (hp : c.Passes (indentBy n false (e.print true)) stop) :
    expectChar c '{' = .ok c.bump ∧ closeBody deep [] c.bump.skipBlank = .ok (e, stop) := by
  have hprints := he.prints hdeep
  have htext : indentBy n false (e.print true) =
      '{' :: ' ' :: (indentBy n false (e.print false) ++ [' ', '}']) := by
    rw [print_true_of_ne_select hselect, indentBy_cons n (by decide), indentBy_cons n (by decide),
      indentBy_append, hprints.endsLine]
    rfl
  rw [htext] at hp
  obtain ⟨start, last, hopen, hstart, hprint, hrest⟩ := start_of_open hdeep he hp
  obtain ⟨close, hspace, hclose⟩ := hrest.uncons
  obtain ⟨hends, hskip⟩ := expressionEnds_of_space hspace hclose.current_cons (by decide)
    (by decide) (by decide)
  refine ⟨hopen, ?_⟩
  rw [hstart]
  have hbrace : last.skipBlank.current = some '}' := by
    rw [hskip]
    exact hclose.current_cons
  exact closeBody_of_body (body_of_inline (hprints.reads n hprint hends) hterm hbrace)
    (hskip ▸ hclose)

/-- A printed selection is read again between its braces. -/
theorem SelectionReadable.placed_reads {deep : Nested} (hdeep : Canonical deep) {s : Selection}
    (h : SelectionReadable deep s) (n : Nat) {c stop : Cursor}
    (hp : c.Passes (indentBy n false ((Expression.select s).print true)) stop) :
    expectChar c '{' = .ok c.bump ∧ closeBody deep [] c.bump.skipBlank = .ok (.select s, stop) := by
  have hprints := h.selector.prints hdeep
  have hchecked := (Selection.build_eq_ok_iff.1 h.build).1
  have hfault := selectorFault?_eq_none_iff.2 hchecked.selector
  have htext : indentBy n false ((Expression.select s).print true) =
      '{' :: ' ' :: (indentBy n false (s.selector.print false) ++ (' ' :: (['-', '>'] ++
        (indentBy n false (variantLines s.variants) ++
          ('\n' :: List.replicate n ' ' ++ ['}']))))) := by
    rw [print_select, indentBy_cons n (by decide), indentBy_cons n (by decide), indentBy_append,
      hprints.endsLine, indentBy_cons n (by decide), indentBy_cons n (by decide),
      indentBy_cons n (by decide), indentBy_append, indentBy_feed, indentBy_true_cons n (by decide)]
    rfl
  rw [htext] at hp
  obtain ⟨start, last, hopen, hstart, hprint, hrest⟩ := start_of_open hdeep h.selector hp
  obtain ⟨arrow, hspace, hrest⟩ := hrest.uncons
  obtain ⟨lines, harrow, hrest⟩ := hrest.split
  obtain ⟨feed, hlines, hrest⟩ := hrest.split
  obtain ⟨close, hgap, hclose⟩ := hrest.split
  obtain ⟨hends, hskip⟩ := expressionEnds_of_space hspace harrow.current_cons (by decide)
    (by decide) (by decide)
  have hblank : Blank ('\n' :: List.replicate n ' ') :=
    fun ch hch => (List.mem_cons.1 hch).elim (fun hfeed => hfeed ▸ rfl)
      ((spaces_replicate n).blank ch)
  -- the lines of the variants end in front of the brace, however far it is indented
  have hbrace : feed.skipBlank = close :=
    skipBlank_eq_of_passes hgap hblank hclose.current_cons (by decide) (by decide)
  have hadvance : arrow.advance 2 = lines := Cursor.advance_eq harrow
  obtain ⟨hinline, hread⟩ := variants_of_passes hdeep h.variants hchecked.variants hlines
    hgap.current_cons (hbrace ▸ hclose.current_cons)
  have hatArrow : atArrow arrow = true := by
    rw [atArrow, Cursor.startsWith, harrow.1]
    rfl
  refine ⟨hopen, ?_⟩
  rw [hstart]
  refine closeBody_of_body ?_ (hbrace ▸ hclose)
  rw [body, hprints.reads n hprint hends]
  show (if atArrow last.skipBlank then _ else _) = _
  rw [hskip, hatArrow, if_pos rfl, checkSelector_of_fault? hfault, hadvance, hinline]
  show (Grammar.variants deep lines >>= _) = _
  rw [hread]
  dsimp only [Bind.bind, Except.bind]
  rw [h.build]
  rfl

/-! ## All levels -/

/-- A body is a selection or an inline expression. -/
theorem BodyReadable.select_or_inline {deep : Nested} {e : Expression} (h : BodyReadable deep e) :
    (∃ s, e = .select s ∧ SelectionReadable deep s) ∨
      InlineReadable deep e ∧ (∀ s, e ≠ .select s) ∧
        ∀ id a arguments, e ≠ .term id (some a) arguments := by
  cases e with
  | select s => exact .inl ⟨s, rfl, h⟩
  | term id attr arguments =>
    cases attr with
    | none => exact .inr ⟨h, nofun, nofun⟩
    | some a => exact h.elim
  | _ => exact .inr ⟨h, nofun, nofun⟩

/-- A printed body holds no carriage returns. -/
theorem BodyReadable.noReturn {deep : Nested} (hdeep : Canonical deep) {e : Expression}
    (h : BodyReadable deep e) : '\r' ∉ e.print true := by
  rcases h.select_or_inline with ⟨s, rfl, hs⟩ | ⟨he, hselect, -⟩
  · have hlines : ∀ list : List Variant, (∀ v ∈ list, VariantReadable deep v) →
        '\r' ∉ variantLines list := by
      intro list hlist
      induction list with
      | nil => exact List.not_mem_nil
      | cons v vs ih =>
        have hv := (hlist v List.mem_cons_self).noReturn hdeep
        have hvs := ih fun x hx => hlist x (List.mem_cons_of_mem _ hx)
        simp [variantLines, hv, hvs]
    have hvariants := hlines s.variants hs.variants
    have hselector := (hs.selector.prints hdeep).noReturn
    rw [print_select]
    simp [hselector, hvariants]
  · have hprint := (he.prints hdeep).noReturn
    rw [print_true_of_ne_select hselect]
    simp [hprint]

/-- **Placeables of every level are read again**, and so are the arguments of calls. -/
theorem canonical_plainNested (limit left : Nat) : Canonical (plainNested limit left) := by
  induction left with
  | zero =>
    constructor
    · rintro e ⟨c, stop, -, h⟩
      exact absurd h fail_ne_ok
    · rintro a ⟨c, stop, -, h⟩
      exact absurd h fail_ne_ok
  | succ left ih =>
    constructor
    · rintro e ⟨c, stop, hclean, h⟩
      obtain ⟨start, hs, h⟩ := bind_eq_ok.1 h
      obtain ⟨⟨inner, last⟩, hb, h⟩ := bind_eq_ok.1 h
      obtain ⟨close, -, h⟩ := bind_eq_ok.1 h
      obtain ⟨rfl, -⟩ := Prod.mk.inj (Except.ok.inj h)
      have hle := Cursor.le_trans (Cursor.le_of_lt (expectChar_lt hs)) (Cursor.le_skipBlank start)
      have hbody := body_ok hb (Cursor.not_mem_of_le hle hclean)
      refine ⟨hbody.noReturn ih, fun n {c stop} hp => ?_⟩
      -- selections are laid out on lines of their own, all else on one
      have hread : expectChar c '{' = .ok c.bump ∧
          closeBody (plainNested limit left) [] c.bump.skipBlank = .ok (inner, stop) := by
        rcases hbody.select_or_inline with ⟨s, rfl, hselection⟩ | ⟨he, hselect, hterm⟩
        · exact hselection.placed_reads ih n hp
        · exact he.placed_reads ih hterm hselect n hp
      show (expectChar c '{' >>= _) = _
      rw [hread.1]
      exact hread.2
    · rintro a ⟨c, stop, hclean, h⟩
      have hcall := arguments_ok h hclean
      exact ⟨hcall.noReturn ih, fun n => hcall.reads ih n⟩

/-- On every level the rules read what was printed for what they read. -/
theorem canonical_nested (limit left : Nat) : Canonical (nested limit left) :=
  nested_eq_plainNested limit left ▸ canonical_plainNested limit left

/-! ## What holds of all that is read -/

/-- **Induction on what is read in braces and parentheses**: it holds of all levels if it passes
from what lies deeper to bodies and to the arguments of calls. -/
theorem reads_nested {P : Expression → Prop} {Q : CallArguments → Prop}
    (hbody : ∀ {deep : Nested}, (∀ e, Reads (deep.placeable []) e → P e) →
      (∀ a, Reads deep.arguments a → Q a) → ∀ e, BodyReadable deep e → P e)
    (hcall : ∀ {deep : Nested}, (∀ e, Reads (deep.placeable []) e → P e) →
      (∀ a, Reads deep.arguments a → Q a) → ∀ a, CallReadable deep a → Q a) (limit left : Nat) :
    (∀ e, Reads ((nested limit left).placeable []) e → P e) ∧
      ∀ a, Reads (nested limit left).arguments a → Q a := by
  rw [nested_eq_plainNested]
  induction left with
  | zero =>
    constructor
    · rintro e ⟨c, stop, -, h⟩
      exact absurd h fail_ne_ok
    · rintro a ⟨c, stop, -, h⟩
      exact absurd h fail_ne_ok
  | succ left ih =>
    constructor
    · rintro e ⟨c, stop, hclean, h⟩
      obtain ⟨start, hs, h⟩ := bind_eq_ok.1 h
      obtain ⟨⟨inner, last⟩, hb, h⟩ := bind_eq_ok.1 h
      obtain ⟨close, -, h⟩ := bind_eq_ok.1 h
      obtain ⟨rfl, -⟩ := Prod.mk.inj (Except.ok.inj h)
      have hle := Cursor.le_trans (Cursor.le_of_lt (expectChar_lt hs)) (Cursor.le_skipBlank start)
      exact hbody ih.1 ih.2 inner (body_ok hb (Cursor.not_mem_of_le hle hclean))
    · rintro a ⟨c, stop, hclean, h⟩
      exact hcall ih.1 ih.2 a (arguments_ok h hclean)

end Fluent.Grammar
