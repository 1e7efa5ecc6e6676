/-
# Raising the limit on depth

The same message is formatted under two limits.  The two runs go on in step until an expression
comes up at a level that only the larger limit allows.  From there on they may differ; but then the
first run has recorded that it went too deep, unless it breaks off later and loses what it recorded,
and the second run has taken more levels than the smaller limit allows.

* `Raised` : two resolutions that are in step, or part in this way; the steps keep it
  (`congruence_raised`);
* `Session.raised_resolve` : so finding the value of an expression does;
* `Formatter.format_withLimit` : what can be told from the problems, and from the levels.
-/
import Fluent.Proofs.Format.DepthGuard
import Fluent.Proofs.Format.Frame
import Fluent.Proofs.Format.Room
import Fluent.Resource.Parse

namespace Fluent

/-! ## Outcomes -/

namespace Outcome

variable {α : Type}

/-- It was recorded that the limit was reached, or the resolution broke off, and what it recorded is
lost. -/
def MayExceed (limit : Nat) : Outcome α → Prop
  | .returned _ after => .depthExceeded limit ∈ after.errors
  | .brokenOff _ => True

/-- The outcomes of two runs that have parted: the first one exceeded its limit, and the second one
took more levels than this limit allows. -/
structure Parted (low : Nat) (first second : Outcome α) : Prop where
  exceeds : first.MayExceed low
  deeper : low < second.thread.depth.peak

/-- What leaves problems and levels alone leaves outcomes parted. -/
theorem Parted.leaving {low : Nat} {first second : Outcome α} {f : Scope → Scope}
    {g : Thread → Thread} (herrors : ∀ scope, (f scope).errors = scope.errors)
    (hthread : ∀ scope, (f scope).thread = g scope.thread)
    (hpeak : ∀ thread, (g thread).depth.peak = thread.depth.peak) (h : Parted low first second) :
    Parted low (first.leaving f g) (second.leaving f g) := by
  obtain ⟨hexceeds, hdeeper⟩ := h
  constructor
  · cases first with
    | returned a after =>
      show _ ∈ (f after).errors
      rw [herrors]
      exact hexceeds
    | brokenOff thread => trivial
  · rw [thread_leaving hthread, hpeak]
    exact hdeeper

end Outcome

namespace Resolving

variable {α β : Type} {low high depth : Nat}

/-- Two resolutions under a lower and a higher limit: in every scope at the given depth they do the
same, or part. -/
structure Raised (low high depth : Nat) (m m' : Resolving α) : Prop where
  frames : Frames m
  balanced : Balanced high m'
  same : ∀ scope : Scope, scope.thread.depth.current = depth → scope.thread.depth.Tracked →
    m scope = m' scope ∨ (m scope).Parted low (m' scope)

/-- A step that no limit concerns. -/
theorem Raised.refl {m : Resolving α} (hframes : Frames m) (hbalanced : Balanced high m) :
    Raised low high depth m m :=
  ⟨hframes, hbalanced, fun _ _ _ => .inl rfl⟩

/-- Runs that have parted stay apart: problems stay recorded, and levels that were taken stay
counted. -/
theorem raised_bind {first first' : Resolving α} {next next' : α → Resolving β}
    (h : Raised low high depth first first') (h' : ∀ a, Raised low high depth (next a) (next' a)) :
    Raised low high depth (first >>= next) (first' >>= next') := by
  refine ⟨frames_bind h.frames fun a => (h' a).frames,
    balanced_bind h.balanced fun a => (h' a).balanced, fun scope hd ht => ?_⟩
  rcases h.same scope hd ht with heq | ⟨hexceeds, hdeeper⟩
  · -- the first steps do the same, so the second ones start in one scope at the same depth
    have hbalances := h.balanced scope
    rw [← heq] at hbalances
    cases hf : first scope with
    | returned a mid =>
      rw [bind_of_returned hf, bind_of_returned (heq ▸ hf)]
      rw [hf] at hbalances
      exact (h' a).same mid ((h.frames _ _ _ hf).depth.trans hd) (hbalances.tracked ht)
    | brokenOff thread =>
      rw [bind_of_brokenOff hf, bind_of_brokenOff (heq ▸ hf)]
      exact .inl rfl
  · -- once parted, the problem of the lower limit stays, and so does the peak of the higher one
    refine .inr ⟨?_, ?_⟩
    · cases hf : first scope with
      | returned a mid =>
        rw [hf] at hexceeds
        rw [bind_of_returned hf]
        cases hn : next a mid with
        | returned b after => exact ((h' a).frames _ _ _ hn).errors.subset hexceeds
        | brokenOff thread => trivial
      | brokenOff thread =>
        rw [bind_of_brokenOff hf]
        trivial
    · cases hf : first' scope with
      | returned a mid =>
        rw [hf] at hdeeper
        rw [bind_of_returned hf]
        exact Nat.lt_of_lt_of_le hdeeper ((h' a).balanced mid).2.1
      | brokenOff thread =>
        rw [hf] at hdeeper
        rw [bind_of_brokenOff hf]
        exact hdeeper

/-- Arguments of its own keep a body related under both limits. -/
theorem raised_withLocalArgs (args : Arguments) {body body' : Resolving α}
    (h : Raised low high depth body body') :
    Raised low high depth (withLocalArgs args body) (withLocalArgs args body') := by
  refine ⟨frames_withLocalArgs args h.frames, balanced_withLocalArgs args h.balanced,
    fun scope hd ht => ?_⟩
  rw [withLocalArgs_eq, withLocalArgs_eq]
  rcases h.same { scope with localArgs := some args } hd ht with heq | hparted
  · exact .inl (by rw [heq])
  · refine .inr (.leaving ?_ ?_ ?_ hparted) <;> exact fun _ => rfl

/-- A place on the trail keeps a body related under both limits. -/
theorem raised_withPlace (place : Place) {body body' : Resolving α}
    (h : Raised low high depth body body') :
    Raised low high depth (withPlace place body) (withPlace place body') := by
  refine ⟨frames_withPlace place h.frames, balanced_withPlace place h.balanced,
    fun scope hd ht => ?_⟩
  rw [withPlace_eq, withPlace_eq]
  rcases h.same { scope with trail := place :: scope.trail } hd ht with heq | hparted
  · exact .inl (by rw [heq])
  · refine .inr (.leaving ?_ ?_ ?_ hparted) <;> exact fun _ => rfl

/-- The steps of resolving are the same under both limits. -/
theorem congruence_raised (low high depth : Nat) :
    Congruence fun m m' => Raised low high depth m m' where
  pure a := .refl (frames_pure a) (balanced_pure a)
  bind := raised_bind
  breakOff := .refl congruence_frames.breakOff balanced_breakOff
  record error := .refl (frames_record error) (balanced_record error)
  valueOf? name := .refl (congruence_frames.valueOf? name) (balanced_valueOf? name)
  isOnTrail place := .refl (congruence_frames.isOnTrail place) (balanced_isOnTrail place)
  withLocalArgs args _ _ := raised_withLocalArgs args
  withPlace place _ _ := raised_withPlace place

/-! ## At the limits -/

/-- Beyond the higher limit both runs refuse; they part unless the limits are the same. -/
theorem raised_tooDeep (hle : low ≤ high) (hdepth : high ≤ depth) :
    Raised low high depth (tooDeep low) (tooDeep high) := by
  refine ⟨Session.frames_tooDeep low, balanced_failed _ _, fun scope hd ht => ?_⟩
  by_cases heq : low = high
  · exact .inl (by rw [heq])
  · refine .inr ⟨List.mem_cons_self, ?_⟩
    show low < scope.thread.depth.peak
    unfold Depth.Tracked at ht
    omega

/-- One level deeper: below both limits the bodies decide, and between them the runs part. -/
theorem raised_guarded (hle : low ≤ high) {body body' : Resolving Resolved}
    (h : Raised low high (depth + 1) body body') :
    Raised low high depth (guarded low (tooDeep low) body) (guarded high (tooDeep high) body') := by
  refine ⟨frames_guarded low (Session.frames_tooDeep low) h.frames,
    balanced_guarded (Nat.le_refl high) (balanced_failed _ _) h.balanced, fun scope hd ht => ?_⟩
  have hrefused : ∀ {limit : Nat} {inner : Resolving Resolved}, limit ≤ depth →
      guarded limit (tooDeep limit) inner scope = tooDeep limit scope := by
    intro limit inner hlimit
    have hnone : scope.thread.depth.enter? limit = none := by
      rw [Depth.enter?, if_neg (by omega)]
    exact guarded_of_full hnone
  by_cases hhigh : depth < high
  · obtain ⟨entered, hentered⟩ : ∃ entered, scope.thread.depth.enter? high = some entered := by
      rw [Depth.enter?, if_pos (by omega)]
      exact ⟨_, rfl⟩
    obtain ⟨-, hcurrent, hpeak⟩ := Depth.enter?_eq_some_iff.1 hentered
    rw [guarded_of_entered hentered]
    by_cases hlow : depth < low
    · have hentered' : scope.thread.depth.enter? low = some entered := by
        rw [Depth.enter?_eq_some_iff]
        exact ⟨by omega, hcurrent, hpeak⟩
      rw [guarded_of_entered hentered']
      have hd' : (scope.withDepth entered).thread.depth.current = depth + 1 := hd ▸ hcurrent
      rcases h.same _ hd' (Depth.tracked_enter? hentered) with heq | hparted
      · exact .inl (by rw [heq])
      · refine .inr (.leaving ?_ ?_ ?_ hparted) <;> exact fun _ => rfl
    · rw [hrefused (Nat.le_of_not_lt hlow)]
      refine .inr ⟨List.mem_cons_self, ?_⟩
      -- the level that was taken stays counted
      have hcounted : entered.peak ≤ _ := (h.balanced (scope.withDepth entered)).2.1
      rw [Outcome.thread_leaving]
      · show low < (Outcome.thread _).depth.peak
        omega
      · exact fun _ => rfl
  · have hlow : low ≤ depth := by omega
    rw [hrefused hlow, hrefused (Nat.le_of_not_lt hhigh)]
    exact (raised_tooDeep hle (Nat.le_of_not_lt hhigh)).same scope hd ht

end Resolving

open Resolving

/-! ## Runs under two limits -/

/-- A call that asks for no text does not look at the formatters. -/
theorem Level.raised_run {level level' : Level} {call : Call} (h : call.IsPlain)
    {low high depth : Nat} : Raised low high depth (level.run call) (level'.run call) := by
  have hrun : ∀ (ask : Nat → Request → Thread → Formatted × Thread) (thread : Thread),
      (call.run ask thread).2 = thread ∧
        (call.run ask thread).1 = (call.run level.ask thread).1 := by
    intro ask thread
    cases call with
    | format place request resume => exact h.elim
    | _ => exact ⟨rfl, rfl⟩
  have heq : level'.run call = level.run call := by
    funext scope
    obtain ⟨hthread, hresult⟩ := hrun level'.ask scope.thread
    rw [Level.run, Level.run, hthread, hresult, (hrun level.ask scope.thread).1]
  rw [heq]
  refine .refl ?_ ?_
  · rintro scope _ _ ⟨⟩
    rw [(hrun level.ask scope.thread).1]
    exact .refl scope
  · intro scope
    show scope.thread.Balances high (call.run level.ask scope.thread).2
    rw [(hrun level.ask scope.thread).1]
    exact .refl high scope.thread

namespace Session

variable {formatter : Formatter}

/-- The value of an expression under both limits, with room up to the higher one. -/
theorem raised_resolve (hplain : formatter.functions.IsPlain) {low high : Nat} (hle : low ≤ high)
    {room depth : Nat} (hroom : high ≤ depth + room) (place : Place) (e : Expression) :
    Raised low high depth
      (resolve ⟨formatter.withLimit low, []⟩ room (formatter.withLimit low) place e)
      (resolve ⟨formatter.withLimit high, []⟩ room (formatter.withLimit high) place e) := by
  induction room generalizing depth place e with
  | zero => exact raised_tooDeep hle hroom
  | succ room ih =>
    have hlevel : (level ⟨formatter.withLimit low, []⟩ room (formatter.withLimit low)).Related
        (fun m m' => Raised low high (depth + 1) m m')
        (level ⟨formatter.withLimit high, []⟩ room (formatter.withLimit high)) := by
      refine ⟨rfl, fun place e => ih (by omega) place e, ?_⟩
      rintro call ⟨name, f, positional, named, hf, rfl⟩
      exact Level.raised_run (hplain name f hf positional named)
    exact raised_guarded hle (hlevel.expression (congruence_raised low high _) place e.peeled)

end Session

namespace Formatter

variable {formatter : Formatter}

/-- Two calls under different limits do the same, unless the first one exceeds its limit, or breaks
off, and the second one takes more levels than this limit allows. -/
theorem format_eq_or_parted (hplain : formatter.functions.IsPlain) {low high : Nat}
    (hle : low ≤ high) (id : String) (attr : Option String) (args : Arguments) :
    let lower := Session.format ⟨formatter.withLimit low, []⟩ ⟨.message id attr, args⟩
    let higher := Session.format ⟨formatter.withLimit high, []⟩ ⟨.message id attr, args⟩
    lower = higher ∨
      (.depthExceeded low ∈ lower.1.errors ∨ .internal (referenceLabel id attr) ∈ lower.1.errors) ∧
        low < higher.2.depth.peak := by
  intro lower higher
  have hlower : lower = _ := (formatter.withLimit low).session_format_eq id attr args hle
  have hhigher : higher = _ :=
    (formatter.withLimit high).session_format_eq id attr args (Nat.le_refl high)
  have hraised := raised_bind (Session.raised_resolve hplain hle (Nat.le_add_left high 0)
    ⟨.standalone, []⟩ (.message ⟨id⟩ (attr.map Identifier.mk))) (congruence_raised low high 0).text
  rw [hlower, hhigher]
  unfold contained
  rcases hraised.same { args := args } rfl Depth.tracked_start with heq | ⟨hexceeds, hdeeper⟩
  · exact .inl (by rw [heq])
  · refine .inr ⟨?_, ?_⟩
    · split
      · rename_i text after hafter
        rw [hafter] at hexceeds
        exact .inl (List.mem_reverse.2 hexceeds)
      · exact .inr List.mem_cons_self
    · split
      · rename_i text after hafter
        rw [hafter] at hdeeper
        exact hdeeper
      · rename_i thread hthread
        rw [hthread] at hdeeper
        exact hdeeper

/-- **Raising the limit changes no call that did not exceed it.**  A call that neither exceeds its
limit nor breaks off gives the same text and the same problems under every larger limit.  So does
any call that takes no more levels under the larger limit than the smaller one allows, one that
breaks off included. -/
theorem format_withLimit (hplain : formatter.functions.IsPlain) {low high : Nat} (hle : low ≤ high)
    (id : String) (attr : Option String) (args : Arguments) :
    let lower := (formatter.withLimit low).format id attr args
    let higher := (formatter.withLimit high).format id attr args
    ((∀ limit, .depthExceeded limit ∉ lower.errors) →
      .internal (referenceLabel id attr) ∉ lower.errors → higher = lower) ∧
    ((Session.format ⟨formatter.withLimit high, []⟩ ⟨.message id attr, args⟩).2.depth.peak ≤ low →
      higher = lower) := by
  intro lower higher
  rcases format_eq_or_parted hplain hle id attr args with heq | ⟨hexceeds, hdeeper⟩
  · have hsame : higher = lower := (congrArg Prod.fst heq).symm
    exact ⟨fun _ _ => hsame, fun _ => hsame⟩
  · refine ⟨fun hdepth hinternal => ?_, fun hpeak => absurd hdeeper (Nat.not_lt_of_le hpeak)⟩
    rcases hexceeds with hmem | hmem
    · exact absurd hmem (hdepth low)
    · exact absurd hmem hinternal

/-- A message with two variants, chosen by a number that goes through two calls. -/
def spending : List Char :=
  ("m = \x7b NUMBER(NUMBER($x)) ->\n    [1] ok\n" ++ "   *[other] \x7b $big \x7d\n\x7d\n").toList

/-- A formatter with this message. -/
def spender : Formatter where
  catalog := (Catalog.empty.add (Resource.parse {} spending)).1

/-- The number 1 twice, once with more digits than can be written. -/
def purse : Arguments :=
  .ofList [("x", .number { value := floatOfNat 1 }),
    ("big", .number { value := floatOfNat 1, options := { minimumFractionDigits := some 70000 } })]

/-- Five levels are enough to find the variant, so ten give the same. -/
theorem format_withLimit_spender :
    spender.functions.IsPlain ∧ ((spender.withLimit 5).format "m" none purse).errors = [] ∧
      (spender.withLimit 10).format "m" none purse =
        (spender.withLimit 5).format "m" none purse := by
  have hplain : spender.functions.IsPlain := FunctionTable.isPlain_builtins
  have herrors : ((spender.withLimit 5).format "m" none purse).errors = [] := by decide +kernel
  have hle : 5 ≤ 10 := by decide
  have hsame := (format_withLimit hplain hle "m" none purse).1
  rw [herrors] at hsame
  exact ⟨hplain, herrors, hsame (fun _ => List.not_mem_nil) List.not_mem_nil⟩

/-- It is not enough that no depth is told to be exceeded.  With four levels the selector goes too
deep, so the other variant is chosen, whose number cannot be written; the call breaks off and loses
what it had recorded. -/
theorem depth_hidden_by_breakOff :
    ¬∀ (formatter : Formatter) (low high : Nat) (id : String) (attr : Option String)
      (args : Arguments), formatter.functions.IsPlain → low ≤ high →
      (∀ limit, .depthExceeded limit ∉ ((formatter.withLimit low).format id attr args).errors) →
      (formatter.withLimit high).format id attr args =
        (formatter.withLimit low).format id attr args := by
  intro hclaim
  have herrors : ((spender.withLimit 4).format "m" none purse).errors = [.internal "m"] := by
    decide +kernel
  have hsame := hclaim spender 4 10 "m" none purse FunctionTable.isPlain_builtins (by decide)
    (by simp [herrors])
  have hlower : ((spender.withLimit 4).format "m" none purse).text = braced "m" := by
    decide +kernel
  have hhigher : ((spender.withLimit 10).format "m" none purse).text = "ok".toList := by
    decide +kernel
  rw [hsame, hlower] at hhigher
  exact absurd hhigher (by decide)

end Formatter

end Fluent
