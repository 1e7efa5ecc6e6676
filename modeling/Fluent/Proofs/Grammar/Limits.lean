/-
# Limits on nesting

A limit on nesting refuses what is nested deeper, and does nothing else.  Under it every rule either
answers what it answers under a larger limit, and then this fits into the limit, or it refuses
because of the limit, and then the larger limit lets nothing through that would have fitted.

* `Limited` : the relation between the two answers; steps in a row keep it (`Limited.bind`);
* `nested_limited` : the rules under two limits are related, level by level;
* `entryTwice_run` : trying a small limit first makes no difference.
-/
import Fluent.Proofs.Grammar.Placeables
import Fluent.Resource.Items
import Fluent.Tree.Nesting

namespace Fluent.Grammar

/-! ## Answers under two limits -/

/-- The answers of a rule under a limit and under a larger one, where `fits` says whether a value
is nested no deeper than the first of them allows. -/
def Limited {α : Type} (limit : Nat) (fits : α → Prop) (x y : Reading (α × Cursor)) : Prop :=
  (∃ position, x = .error ⟨position, .nestedTooDeep limit, []⟩ ∧
    ∀ a stop, y = .ok (a, stop) → ¬ fits a) ∨
  (x = y ∧ ∀ a stop, y = .ok (a, stop) → fits a)

namespace Limited

variable {α β γ : Type} {limit : Nat} {fits : α → Prop} {fits' : β → Prop}

/-- A rule that no limit concerns. -/
theorem refl {x : Reading (α × Cursor)} (h : ∀ a stop, x = .ok (a, stop) → fits a) :
    Limited limit fits x x :=
  .inr ⟨rfl, h⟩

/-- An answer that fits into the limit is the same under both limits. -/
theorem ok {a : α} (h : fits a) (stop : Cursor) :
    Limited limit fits (.ok (a, stop)) (.ok (a, stop)) :=
  refl fun _ _ ha => (Prod.mk.inj (Except.ok.inj ha)).1 ▸ h

/-- The same failure under both limits keeps the relation. -/
theorem error (failure : ParseFailure) :
    Limited limit fits (.error failure) (.error failure) :=
  refl nofun

/-- At the limit everything is refused. -/
theorem tooDeep (c : Cursor) {y : Reading (α × Cursor)}
    (h : ∀ a stop, y = .ok (a, stop) → ¬ fits a) :
    Limited limit fits (c.fail (.nestedTooDeep limit)) y :=
  .inl ⟨c.pos, rfl, h⟩

/-- The same first step, then answers that are related. -/
theorem bind_right (x : Reading γ) {f g : γ → Reading (β × Cursor)}
    (h : ∀ a, x = .ok a → Limited limit fits' (f a) (g a)) :
    Limited limit fits' (x >>= f) (x >>= g) := by
  cases x with
  | error failure => exact error failure
  | ok a => exact h a rfl

/-- Steps in a row.  What the first one reads is a part of the whole, and fits if that does. -/
theorem bind {x y : Reading (α × Cursor)} {f g : α × Cursor → Reading (β × Cursor)}
    (h : Limited limit fits x y)
    (h' : ∀ a stop, x = .ok (a, stop) → fits a → Limited limit fits' (f (a, stop)) (g (a, stop)))
    (hpart : ∀ a stop b last, g (a, stop) = .ok (b, last) → fits' b → fits a) :
    Limited limit fits' (x >>= f) (y >>= g) := by
  rcases h with ⟨position, rfl, hdeep⟩ | ⟨rfl, hfits⟩
  · refine .inl ⟨position, rfl, fun b last hb hfitsb => ?_⟩
    obtain ⟨⟨a, stop⟩, ha, hg⟩ := bind_eq_ok.1 hb
    exact hdeep a stop ha (hpart a stop b last hg hfitsb)
  · refine bind_right x fun ⟨a, stop⟩ ha => ?_
    exact h' a stop ha (hfits a stop ha)

/-- A step that is not limited behind one that is. -/
theorem bind_left {x y : Reading (α × Cursor)} {f : α × Cursor → Reading (β × Cursor)}
    (h : Limited limit fits x y)
    (hf : ∀ a stop b last, f (a, stop) = .ok (b, last) → (fits' b ↔ fits a)) :
    Limited limit fits' (x >>= f) (y >>= f) :=
  h.bind (fun a stop _ ha => refl fun b last hb => (hf a stop b last hb).2 ha)
    fun a stop b last hb => (hf a stop b last hb).1

/-- The value is only wrapped. -/
theorem wrap {x y : Reading (α × Cursor)} (wrapper : α → β) (h : Limited limit fits x y)
    (hf : ∀ a, fits' (wrapper a) ↔ fits a) :
    Limited limit fits' (do let (a, stop) ← x; return (wrapper a, stop))
      (do let (a, stop) ← y; return (wrapper a, stop)) := by
  refine h.bind_left fun a stop b last hb => ?_
  obtain ⟨rfl, -⟩ := Prod.mk.inj (Except.ok.inj hb)
  exact hf a

/-- A value that fits is read by a rule that no limit concerns. -/
theorem wrap_right (x : Reading (γ × Cursor)) (wrapper : γ → β) (h : ∀ a, fits' (wrapper a)) :
    Limited limit fits' (do let (a, stop) ← x; return (wrapper a, stop))
      (do let (a, stop) ← x; return (wrapper a, stop)) :=
  bind_right x fun (a, stop) _ => ok (h a) stop

end Limited

/-! ## What has been collected stays -/

/-- Flushing adds the pending text as an element, unless it is empty. -/
theorem PatternBuilder.mem_flush {b : PatternBuilder} {x : PatternElement} :
    x ∈ b.flush ↔ x ∈ b.elements ∨ (b.text ≠ [] ∧ x = .text (String.ofList b.text.reverse)) := by
  unfold PatternBuilder.flush
  cases ht : b.text with
  | nil => simp
  | cons ch text => simp [or_comm]

/-- The elements of a finished pattern were collected, apart from a last text. -/
theorem PatternBuilder.mem_finish {b : PatternBuilder} {p : Pattern} (h : b.finish = some p) :
    (∀ x ∈ b.elements, x ∈ p) ∧ ∀ x ∈ p, x ∈ b.elements ∨ ∃ text, x = .text text := by
  unfold PatternBuilder.finish at h
  dsimp only at h
  split at h
  · cases h
  · obtain rfl := Option.some.inj h
    refine ⟨fun x hx => List.mem_reverse.2 (mem_flush.2 (.inl hx)), fun x hx => ?_⟩
    rcases mem_flush.1 (List.mem_reverse.1 hx) with hx | ⟨-, hx⟩
    · exact .inl hx
    · exact .inr ⟨_, hx⟩

/-- A pattern with an element in it is not empty. -/
theorem PatternBuilder.finish_ne_none {b : PatternBuilder} (h : b.elements ≠ []) :
    b.finish ≠ none := by
  obtain ⟨x, hx⟩ := List.exists_mem_of_ne_nil _ h
  unfold PatternBuilder.finish
  dsimp only
  rw [if_neg]
  · nofun
  · intro hempty
    have hmem := mem_flush (b := { b with text := b.text.dropWhile (· == ' ') }).2 (.inl hx)
    rw [List.isEmpty_iff.1 hempty] at hmem
    cases hmem

/-- Elements that were pushed stay in the pattern. -/
theorem mem_of_patternFrom {deep : Nested} {b : PatternBuilder} {common : Option Nat}
    {c stop : Cursor} {p : Option Pattern} (h : patternFrom deep b common c = .ok (p, stop))
    {x : PatternElement} (hx : x ∈ b.elements) : ∃ q, p = some q ∧ x ∈ q := by
  have hfinish : ∀ b : PatternBuilder, x ∈ b.elements → ∃ q, b.finish = some q ∧ x ∈ q := by
    intro b hx
    obtain ⟨q, hq⟩ := Option.ne_none_iff_exists'.1
      (PatternBuilder.finish_ne_none (List.ne_nil_of_mem hx))
    exact ⟨q, hq, (PatternBuilder.mem_finish hq).1 x hx⟩
  fun_induction patternFrom deep b common c with
  | case1 | case5 =>
    obtain ⟨rfl, -⟩ := Prod.mk.inj (Except.ok.inj h)
    exact hfinish _ hx
  | case2 => cases h
  | case3 b _ _ e _ _ _ ih =>
    exact ih h (List.mem_cons_of_mem _ (PatternBuilder.mem_flush.2 (.inl hx)))
  | case4 => exact absurd h fail_ne_ok
  | case6 b _ _ next _ shared extended _ _ _ ih =>
    refine ih h ?_
    unfold extended
    split
    · exact hx
    · exact hx
  | case7 _ _ _ _ _ _ _ _ ih => exact ih h hx

/-- Variants that were read stay in the list. -/
theorem mem_of_variantsFrom {deep : Nested} {before list : List Variant} {c stop : Cursor}
    (h : variantsFrom deep before c = .ok (list, stop)) {v : Variant} (hv : v ∈ before) :
    v ∈ list := by
  fun_induction variantsFrom deep before c with
  | case1 => cases h
  | case2 _ _ _ _ _ _ _ _ ih => exact ih h (List.mem_cons_of_mem _ hv)
  | case3 | case4 => exact absurd h fail_ne_ok
  | case5 =>
    obtain ⟨rfl, -⟩ := Prod.mk.inj (Except.ok.inj h)
    exact List.mem_reverse.2 hv

/-- Attributes that were read stay in the list. -/
theorem mem_of_attributesFrom {deep : Nested} {before list : List Attribute} {c stop : Cursor}
    (h : attributesFrom deep before c = .ok (list, stop)) {a : Attribute} (ha : a ∈ before) :
    a ∈ list := by
  fun_induction attributesFrom deep before c with
  | case1 => cases h
  | case2 _ _ _ _ _ _ ih => exact ih h (List.mem_cons_of_mem _ ha)
  | case3 =>
    obtain ⟨rfl, -⟩ := Prod.mk.inj (Except.ok.inj h)
    exact List.mem_reverse.2 ha

/-- The arguments of a call are those that were given. -/
theorem ArgumentsSoFar.positional_of_close {soFar : ArgumentsSoFar} {c stop : Cursor}
    {list : CallArguments} (h : soFar.close c = .ok (list, stop)) :
    list.positional = soFar.positional.reverse := by
  obtain ⟨last, -, h⟩ := bind_eq_ok.1 h
  split at h
  · rename_i built hbuild
    obtain ⟨rfl, -⟩ := Prod.mk.inj (Except.ok.inj h)
    obtain ⟨-, rfl⟩ := CallArguments.build_eq_ok_iff.1 hbuild
    rfl
  · exact absurd h fail_ne_ok

/-- An argument is added by position, or by name. -/
theorem ArgumentsSoFar.push_cases {soFar extended : ArgumentsSoFar} {c : Cursor} {given : Argument}
    (h : soFar.push c given = .ok extended) :
    (∃ e, given = .positional e ∧ extended.positional = e :: soFar.positional) ∨
      ∃ x, given = .named x ∧ extended.positional = soFar.positional := by
  cases given with
  | positional e =>
    rw [ArgumentsSoFar.push] at h
    split at h
    · obtain rfl := Except.ok.inj h
      exact .inl ⟨e, rfl, rfl⟩
    · exact absurd h fail_ne_ok
  | named x =>
    rw [ArgumentsSoFar.push] at h
    split at h
    · exact absurd h fail_ne_ok
    · obtain rfl := Except.ok.inj h
      exact .inr ⟨x, rfl, rfl⟩

/-- A further argument is put to those that were given. -/
theorem nextArgument_cases {deep : Nested} {soFar extended : ArgumentsSoFar} {c stop : Cursor}
    (h : nextArgument deep soFar c = .ok (extended, stop)) :
    ∃ given last, argument deep c = .ok (given, last) ∧ soFar.push c given = .ok extended := by
  obtain ⟨⟨given, last⟩, hg, h⟩ := bind_eq_ok.1 h
  obtain ⟨more, hpush, h⟩ := bind_eq_ok.1 h
  obtain ⟨rfl, -⟩ := Prod.mk.inj (Except.ok.inj h)
  exact ⟨given, last, hg, hpush⟩

/-- Positional arguments that were read stay in the list. -/
theorem mem_of_argumentsFrom {deep : Nested} {soFar : ArgumentsSoFar} {c stop : Cursor}
    {list : CallArguments} (h : argumentsFrom deep soFar c = .ok (list, stop)) {e : Expression}
    (he : e ∈ soFar.positional) : e ∈ list.positional := by
  -- an argument is added before it is known what stands behind it
  have hnext : ∀ {soFar extended : ArgumentsSoFar} {c last : Cursor},
      nextArgument deep soFar c = .ok (extended, last) → e ∈ soFar.positional →
        e ∈ extended.positional := by
    intro soFar extended c last hn he
    obtain ⟨given, _, -, hpush⟩ := nextArgument_cases hn
    rcases ArgumentsSoFar.push_cases hpush with ⟨x, -, hx⟩ | ⟨x, -, hx⟩
    · exact hx ▸ List.mem_cons_of_mem _ he
    · exact hx ▸ he
  fun_induction argumentsFrom deep soFar c with
  | case1 =>
    rw [ArgumentsSoFar.positional_of_close h]
    exact List.mem_reverse.2 he
  | case2 | case5 => cases h
  | case3 _ _ _ _ _ ha _ ih => exact ih h (hnext ha he)
  | case4 _ _ _ _ _ ha =>
    rw [ArgumentsSoFar.positional_of_close h]
    exact List.mem_reverse.2 (hnext ha he)

/-! ## The rules of one level -/

/-- An argument that is nested no deeper. -/
def Argument.Fits (n : Nat) : Argument → Prop
  | .positional e => e.nesting ≤ n
  | .named _ => True

/-- The rules for braces and parentheses under a limit of which `left` levels are free, and those
under a larger limit. -/
structure Nested.Limited (limit left : Nat) (shallow deep : Nested) : Prop where
  placeable : ∀ c, Grammar.Limited limit (fun e : Expression => e.nesting + 1 ≤ left)
    ((shallow.placeable []).run c) ((deep.placeable []).run c)
  arguments : ∀ c, Grammar.Limited limit (fun a : CallArguments => a.nesting ≤ left)
    (shallow.arguments.run c) (deep.arguments.run c)

namespace Nested.Limited

variable {limit left : Nat} {shallow deep : Nested} (h : shallow.Limited limit left deep)
include h

/-! ## Expressions and arguments -/

/-- A term reference keeps the relation: only its arguments are nested. -/
theorem termReference (c : Cursor) :
    Grammar.Limited limit (fun e => e.nesting ≤ left) (termReference shallow c)
      (termReference deep c) := by
  refine .bind_right _ fun start _ => .bind_right _ fun ⟨name, point⟩ _ =>
    .bind_right _ fun ⟨attr, stop⟩ _ => ?_
  dsimp only
  split
  · exact (h.arguments _).wrap (fun a => Expression.term ⟨name⟩ attr (some a)) fun _ => Iff.rfl
  · refine .ok ?_ stop
    exact Nat.zero_le _

theorem messageOrFunction (c : Cursor) :
    Grammar.Limited limit (fun e => e.nesting ≤ left) (messageOrFunction shallow c)
      (messageOrFunction deep c) := by
  refine .bind_right _ fun ⟨name, point⟩ _ => ?_
  dsimp only
  split
  · exact (h.arguments _).wrap (Expression.function ⟨name⟩) fun _ => Iff.rfl
  · exact .wrap_right _ (Expression.message ⟨name⟩) fun _ => Nat.zero_le _

theorem inlineExpression (c : Cursor) :
    Grammar.Limited limit (fun e => e.nesting ≤ left) (inlineExpression shallow c)
      (inlineExpression deep c) := by
  unfold Grammar.inlineExpression
  split
  · exact .wrap_right _ Expression.number fun _ => Nat.zero_le _
  split
  · exact .wrap_right _ Expression.string fun _ => Nat.zero_le _
  split
  · exact h.termReference c
  split
  · exact .wrap_right _ (fun name => Expression.var ⟨name⟩) fun _ => Nat.zero_le _
  split
  · exact (h.placeable c).wrap Expression.placeable fun _ => Iff.rfl
  split
  · exact h.messageOrFunction c
  · exact .error _

/-- An argument keeps the relation; the value of a named one is a literal and nests nothing. -/
theorem argument (c : Cursor) :
    Grammar.Limited limit (Argument.Fits left) (argument shallow c) (argument deep c) := by
  refine (h.inlineExpression c).bind_left fun e after given last hg => ?_
  dsimp only at hg
  split at hg
  · split at hg
    · -- a name is read as a reference, which is not nested
      obtain ⟨_, -, hg⟩ := bind_eq_ok.1 hg
      obtain ⟨rfl, -⟩ := Prod.mk.inj (Except.ok.inj hg)
      exact ⟨fun _ => Nat.zero_le _, fun _ => trivial⟩
    · obtain ⟨rfl, -⟩ := Prod.mk.inj (Except.ok.inj hg)
      exact Iff.rfl
  · obtain ⟨rfl, -⟩ := Prod.mk.inj (Except.ok.inj hg)
    exact Iff.rfl

theorem nextArgument {soFar : ArgumentsSoFar} (hs : ∀ e ∈ soFar.positional, e.nesting ≤ left)
    (c : Cursor) :
    Grammar.Limited limit (fun s : ArgumentsSoFar => ∀ e ∈ s.positional, e.nesting ≤ left)
      (nextArgument shallow soFar c) (nextArgument deep soFar c) := by
  refine (h.argument c).bind_left fun given after extended last hn => ?_
  obtain ⟨more, hpush, hn⟩ := bind_eq_ok.1 hn
  obtain ⟨rfl, -⟩ := Prod.mk.inj (Except.ok.inj hn)
  rcases ArgumentsSoFar.push_cases hpush with ⟨e, rfl, hmore⟩ | ⟨x, rfl, hmore⟩
  · rw [hmore, List.forall_mem_cons]
    exact and_iff_left hs
  · rw [hmore]
    exact ⟨fun _ => trivial, fun _ => hs⟩

/-- The rest of an argument list keeps the relation, by induction on the text left. -/
theorem argumentsFrom {soFar : ArgumentsSoFar} (hs : ∀ e ∈ soFar.positional, e.nesting ≤ left)
    (c : Cursor) :
    Grammar.Limited limit (fun a : CallArguments => ∀ e ∈ a.positional, e.nesting ≤ left)
      (argumentsFrom shallow soFar c) (argumentsFrom deep soFar c) := by
  have hclose : ∀ {soFar : ArgumentsSoFar} (c : Cursor),
      (∀ e ∈ soFar.positional, e.nesting ≤ left) →
        Grammar.Limited limit (fun a : CallArguments => ∀ e ∈ a.positional, e.nesting ≤ left)
          (soFar.close c) (soFar.close c) := by
    refine fun c hs => .refl fun a stop ha e he => hs e ?_
    rw [ArgumentsSoFar.positional_of_close ha] at he
    exact List.mem_reverse.1 he
  rw [argumentsFrom_eq shallow, argumentsFrom_eq deep]
  split
  · exact hclose c hs
  · refine (h.nextArgument hs c).bind ?_ ?_
    · intro extended stop ha hextended
      have hlt : stop.bump.skipBlank.rest.length < c.rest.length :=
        Cursor.length_lt_of_lt (Cursor.lt_of_lt_of_le (nextArgument_lt ha)
          (Cursor.le_trans (Cursor.le_bump _) (Cursor.le_skipBlank _)))
      dsimp only
      split
      · exact argumentsFrom hextended stop.bump.skipBlank
      split
      · exact hclose stop hextended
      · exact .error _
    · intro extended stop a last ha hfits e he
      dsimp only at ha
      split at ha
      · exact hfits e (mem_of_argumentsFrom ha he)
      split at ha
      · exact hfits e (ArgumentsSoFar.positional_of_close ha ▸ List.mem_reverse.2 he)
      · cases ha
termination_by c.rest.length

/-- Parentheses take a level more. -/
theorem callArguments (c : Cursor) :
    Grammar.Limited limit (fun a : CallArguments => a.nesting ≤ left + 1)
      (Grammar.arguments shallow c) (Grammar.arguments deep c) := by
  simp only [CallArguments.nesting_le_succ_iff]
  exact .bind_right _ fun start _ => h.argumentsFrom (by simp) start.skipBlank

/-! ## Patterns and selections -/

/-- The rest of a pattern keeps the relation: a placeable too deep for the limit would stay in the
pattern. -/
theorem patternFrom {b : PatternBuilder} (hb : ∀ x ∈ b.elements, x.nesting ≤ left)
    (common : Option Nat) (c : Cursor) :
    Grammar.Limited limit (fun p : Option Pattern => ∀ q, p = some q → Pattern.nesting q ≤ left)
      (patternFrom shallow b common c) (patternFrom deep b common c) := by
  have hfinish : ∀ q, b.finish = some q → Pattern.nesting q ≤ left := by
    refine fun q hq => Pattern.nesting_le_iff.2 fun x hx => ?_
    rcases (PatternBuilder.mem_finish hq).2 x hx with hx | ⟨text, rfl⟩
    · exact hb x hx
    · exact Nat.zero_le _
  rw [patternFrom_eq shallow, patternFrom_eq deep]
  split
  · exact .ok hfinish _
  rename_i ch hc
  split
  · refine (h.placeable c).bind ?_ ?_
    · -- the placeable fits, and so does what is read behind it
      intro e next hp he
      have hlt := Cursor.length_lt_of_lt ((shallow.placeable []).advances hp)
      refine patternFrom (fun x hx => ?_) common next
      rcases List.mem_cons.1 hx with rfl | hx
      · exact he
      rcases PatternBuilder.mem_flush.1 hx with hx | ⟨-, rfl⟩
      · exact hb x hx
      · exact Nat.zero_le _
    · -- it does not fit; it would stay in the pattern, so this does not fit either
      intro e next p last hp hfits
      obtain ⟨q, hq, hmem⟩ := mem_of_patternFrom hp List.mem_cons_self
      exact Pattern.nesting_le_iff.1 (hfits q hq) _ hmem
  rename_i hopen
  split
  · exact .error _
  rename_i hclose
  split
  · split
    · exact .ok hfinish _
    · rename_i next hn
      have hlt := Cursor.length_lt_of_lt (continuation?_lt hc hn)
      refine patternFrom (fun x hx => hb x ?_) _ next.resume
      split at hx
      · exact hx
      · exact hx
  · rename_i hline
    have hlt := Cursor.length_lt_of_lt
      (Cursor.lt_skipWhile hc (isText_of_ne hopen hclose hline))
    exact patternFrom (b := b.pushText _) hb common (c.skipWhile isText)
termination_by c.rest.length

theorem pattern (c : Cursor) :
    Grammar.Limited limit (fun p : Option Pattern => ∀ q, p = some q → Pattern.nesting q ≤ left)
      (pattern shallow c) (pattern deep c) :=
  h.patternFrom (b := .empty) (by simp [PatternBuilder.empty]) Option.none c

theorem variant (isDefault : Bool) (c : Cursor) :
    Grammar.Limited limit (fun v : Variant => v.nesting ≤ left) (variant shallow isDefault c)
      (variant deep isDefault c) := by
  refine .bind_right _ fun key _ => (h.pattern _).bind_left fun value after v last hv => ?_
  cases value with
  | none => exact absurd hv fail_ne_ok
  | some value =>
    obtain ⟨rfl, -⟩ := Prod.mk.inj (Except.ok.inj hv)
    simp [Variant.nesting_eq]

theorem variantsFrom {before : List Variant} (hb : ∀ v ∈ before, v.nesting ≤ left) (c : Cursor) :
    Grammar.Limited limit (fun list : List Variant => ∀ v ∈ list, v.nesting ≤ left)
      (variantsFrom shallow before c) (variantsFrom deep before c) := by
  rw [variantsFrom_eq shallow, variantsFrom_eq deep]
  split
  · refine (h.variant _ _).bind ?_ ?_
    · intro v stop hv hfits
      have hlt : stop.rest.length < c.rest.length :=
        Cursor.length_lt_of_lt (Cursor.lt_of_le_of_lt
          (Cursor.le_trans (Cursor.le_skipBlank c) (le_skipStar _)) (variant_lt hv))
      exact variantsFrom (List.forall_mem_cons.2 ⟨hfits, hb⟩) stop
    · exact fun v stop list last hl hfits => hfits v (mem_of_variantsFrom hl List.mem_cons_self)
  split
  · exact .error _
  split
  · exact .error _
  · exact .ok (fun v hv => hb v (List.mem_reverse.1 hv)) _
termination_by c.rest.length

theorem variants (c : Cursor) :
    Grammar.Limited limit (fun list : List Variant => ∀ v ∈ list, v.nesting ≤ left)
      (variants shallow c) (variants deep c) := by
  unfold Grammar.variants
  split
  · exact h.variantsFrom (by simp) c
  · exact .error _

/-- The body of a placeable keeps the relation, selections included. -/
theorem body (c : Cursor) :
    Grammar.Limited limit (fun e : Expression => e.nesting ≤ left) (body shallow c)
      (body deep c) := by
  -- a selection is built from what was read before and behind the arrow
  have hbuild : ∀ {selector : Expression} {list : List Variant} {selection : Selection},
      Selection.build selector list = .ok selection →
        ((Expression.select selection).nesting ≤ left ↔
          selector.nesting ≤ left ∧ ∀ v ∈ list, v.nesting ≤ left) := by
    intro selector list selection hs
    obtain ⟨-, rfl, rfl⟩ := Selection.build_eq_ok_iff.1 hs
    exact Selection.nesting_le_iff
  refine (h.inlineExpression c).bind ?_ ?_
  · intro selector after _ hselector
    dsimp only
    split
    · refine .bind_right _ fun _ _ => (h.variants _).bind_left fun list stop e last he => ?_
      dsimp only at he
      split at he
      · rename_i selection hs
        obtain ⟨rfl, -⟩ := Prod.mk.inj (Except.ok.inj he)
        exact (hbuild hs).trans (and_iff_right hselector)
      · exact absurd he fail_ne_ok
    · -- without an arrow the expression stands alone
      refine .refl fun e stop he => ?_
      split at he
      · exact absurd he fail_ne_ok
      · obtain ⟨rfl, -⟩ := Prod.mk.inj (Except.ok.inj he)
        exact hselector
  · intro selector after e last he hfits
    dsimp only at he
    split at he
    · obtain ⟨-, -, he⟩ := bind_eq_ok.1 he
      obtain ⟨⟨list, stop⟩, -, he⟩ := bind_eq_ok.1 he
      dsimp only at he
      split at he
      · rename_i selection hs
        obtain ⟨rfl, -⟩ := Prod.mk.inj (Except.ok.inj he)
        exact ((hbuild hs).1 hfits).1
      · exact absurd he fail_ne_ok
    · split at he
      · exact absurd he fail_ne_ok
      · obtain ⟨rfl, -⟩ := Prod.mk.inj (Except.ok.inj he)
        exact hfits

/-- Braces take a level more. -/
theorem closeBody (c : Cursor) :
    Grammar.Limited limit (fun e : Expression => e.nesting + 1 ≤ left + 1)
      (closeBody shallow [] c) (closeBody deep [] c) := by
  refine (h.body c).bind_left fun e stop e' last he => ?_
  obtain ⟨close, -, he⟩ := bind_eq_ok.1 he
  obtain ⟨rfl, -⟩ := Prod.mk.inj (Except.ok.inj he)
  exact Nat.add_le_add_iff_right

/-! ## Entries -/

theorem assigned (c : Cursor) :
    Grammar.Limited limit (fun p : Option Pattern => ∀ q, p = some q → Pattern.nesting q ≤ left)
      (assigned shallow c) (assigned deep c) :=
  .bind_right _ fun _ _ => h.pattern _

theorem oneAttribute (c : Cursor) :
    Grammar.Limited limit (fun a : Attribute => Pattern.nesting a.value ≤ left)
      (oneAttribute shallow c) (oneAttribute deep c) := by
  refine .bind_right _ fun start _ => .bind_right _ fun ⟨name, behind⟩ _ =>
    (h.assigned _).bind_left fun value stop a last ha => ?_
  cases value with
  | none => exact absurd ha fail_ne_ok
  | some value =>
    obtain ⟨rfl, -⟩ := Prod.mk.inj (Except.ok.inj ha)
    simp

theorem attributesFrom {before : List Attribute}
    (hb : ∀ a ∈ before, Pattern.nesting a.value ≤ left) (c : Cursor) :
    Grammar.Limited limit (fun list : List Attribute => ∀ a ∈ list, Pattern.nesting a.value ≤ left)
      (attributesFrom shallow before c) (attributesFrom deep before c) := by
  rw [attributesFrom_eq shallow, attributesFrom_eq deep]
  split
  · refine (h.oneAttribute _).bind ?_ ?_
    · intro a stop ha hfits
      have hlt : stop.rest.length < c.rest.length := Cursor.length_lt_of_lt
        (Cursor.lt_of_le_of_lt (Cursor.le_skipBlank c) (oneAttribute_lt ha))
      exact attributesFrom (List.forall_mem_cons.2 ⟨hfits, hb⟩) stop
    · exact fun a stop list last hl hfits => hfits a (mem_of_attributesFrom hl List.mem_cons_self)
  · exact .ok (fun a ha => hb a (List.mem_reverse.1 ha)) _
termination_by c.rest.length

theorem message (c : Cursor) :
    Grammar.Limited limit (fun m : Message => m.nesting ≤ left) (message shallow c)
      (message deep c) := by
  -- the parts of a message are its value and its attributes
  have hparts : ∀ {name : String} {value : Option Pattern} {list : List Attribute} {m : Message}
      {stop last : Cursor},
      (if value.isNone && list.isEmpty then c.fail (.expectedMessageField name)
        else pure (⟨⟨name⟩, value, list, Option.none⟩, stop) : Reading (Message × Cursor)) =
          .ok (m, last) →
        (m.nesting ≤ left ↔ (∀ q, value = some q → Pattern.nesting q ≤ left) ∧
          ∀ a ∈ list, Pattern.nesting a.value ≤ left) := by
    intro name value list m stop last hm
    split at hm
    · exact absurd hm fail_ne_ok
    · obtain ⟨rfl, -⟩ := Prod.mk.inj (Except.ok.inj hm)
      exact Message.nesting_le_iff
  refine .bind_right _ fun ⟨name, behind⟩ _ => (h.assigned _).bind ?_ ?_
  · intro value start _ hvalue
    refine (h.attributesFrom (by simp) _).bind_left fun list stop m last hm => ?_
    rw [hparts hm]
    exact and_iff_right hvalue
  · intro value start m last hm hfits
    obtain ⟨⟨list, stop⟩, -, hm⟩ := bind_eq_ok.1 hm
    exact ((hparts hm).1 hfits).1

theorem term (c : Cursor) :
    Grammar.Limited limit (fun t : Term => t.nesting ≤ left) (term shallow c) (term deep c) := by
  refine .bind_right _ fun first _ => .bind_right _ fun ⟨name, behind⟩ _ =>
    (h.assigned _).bind ?_ ?_
  · rintro (_ | value) start - hvalue
    · exact .error _
    · refine (h.attributesFrom (by simp) _).wrap (fun list => Term.mk ⟨name⟩ value list Option.none)
        fun list => ?_
      rw [Term.nesting_le_iff]
      exact and_iff_right (hvalue value rfl)
  · rintro (_ | value) start t last ht hfits
    · exact absurd ht fail_ne_ok
    · obtain ⟨⟨list, stop⟩, -, ht⟩ := bind_eq_ok.1 ht
      obtain ⟨rfl, -⟩ := Prod.mk.inj (Except.ok.inj ht)
      rintro q ⟨⟩
      exact (Term.nesting_le_iff.1 hfits).1

theorem entry (c : Cursor) :
    Grammar.Limited limit (fun found : Entry => found.nesting ≤ left) (entry shallow c)
      (entry deep c) := by
  unfold Grammar.entry
  split
  · exact .wrap_right _ Entry.comment fun _ => Nat.zero_le _
  split
  · exact (h.term c).wrap Entry.term fun _ => Iff.rfl
  split
  · exact (h.message c).wrap Entry.message fun _ => Iff.rfl
  · exact .error _

theorem entryLine (c : Cursor) :
    Grammar.Limited limit (fun found : Entry => found.nesting ≤ left) ((entryLine shallow).run c)
      ((entryLine deep).run c) := by
  refine (h.entry c).bind_left fun found stop found' last hf => ?_
  obtain ⟨_, -, hf⟩ := bind_eq_ok.1 hf
  obtain ⟨rfl, -⟩ := Prod.mk.inj (Except.ok.inj hf)
  exact Iff.rfl

end Nested.Limited

/-! ## The levels -/

/-- Plain recursion under two limits. -/
theorem plainNested_limited (limit limit' : Nat) {left left' : Nat} (h : left ≤ left') :
    (plainNested limit left).Limited limit left (plainNested limit' left') := by
  induction left generalizing left' with
  | zero =>
    refine ⟨fun c => .tooDeep c fun e _ _ => Nat.not_succ_le_zero e.nesting, fun c => .tooDeep c ?_⟩
    rintro ⟨positional, named⟩ _ _
    exact Nat.not_succ_le_zero _
  | succ left ih =>
    obtain ⟨more, rfl⟩ : ∃ more, left' = more + 1 := ⟨left' - 1, by omega⟩
    have hdeep := ih (by omega : left ≤ more)
    exact ⟨fun c => .bind_right _ fun start _ => hdeep.closeBody start.skipBlank,
      fun c => hdeep.callArguments c⟩

/-- With fewer levels left, out of whatever limit, what is nested deeper than these is refused, and
all else is read as with more levels. -/
theorem nested_limited (limit limit' : Nat) {left left' : Nat} (h : left ≤ left') :
    (nested limit left).Limited limit left (nested limit' left') := by
  rw [nested_eq_plainNested, nested_eq_plainNested]
  exact plainNested_limited limit limit' h

end Grammar

open Grammar

/-- An entry is read as if the full limit had been used at once. -/
theorem entryTwice_run (limit : Nat) (c : Cursor) :
    (entryTwice limit).run c = (entryWithin limit).run c := by
  have h := (nested_limited (min limit shallowNesting) limit
    (Nat.min_le_left limit shallowNesting)).entryLine c
  unfold entryTwice
  dsimp only
  -- only a limit that is larger than the one tried first is tried again
  rcases Nat.lt_or_ge (min limit shallowNesting) limit with hlt | hge
  · rcases h with ⟨position, hf, -⟩ | ⟨heq, -⟩
    · rw [show (entryWithin (min limit shallowNesting)).run c = .error _ from hf]
      simp [ParseFailure.isTooDeep, hlt]
    · rw [show (entryWithin (min limit shallowNesting)).run c = (entryWithin limit).run c from heq]
      cases hr : (entryWithin limit).run c with
      | error failure => simp
      | ok parsed => rfl
  · have hmin : min limit shallowNesting = limit := by omega
    rw [hmin]
    cases hr : (entryWithin limit).run c with
    | error failure => simp
    | ok parsed => rfl

end Fluent
