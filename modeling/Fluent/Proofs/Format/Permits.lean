/-
# What a run leaves is decided at its moments

A run records a cycle or a depth that is exceeded, and enters a level, only at one of its moments.
So what is never recorded at a moment is never recorded at all, and no run goes deeper than its
moments do.

* `StaysWithin` : a resolution records only what is allowed, and goes no deeper than a bound;
* `Permits` : so do all moments of a kind, and they lead to no others;
* `Permits.resolve` : then runs do that start at these moments.
-/
import Fluent.Proofs.Format.Moments

namespace Fluent

open Resolving

/-! ## What a run leaves -/

namespace Resolving

variable {α β : Type} {ok : ResolverError → Prop} {bound : Nat}

/-- From the scope on, the resolution adds only problems that are allowed, and goes no deeper than
the bound. -/
structure StaysWithin (ok : ResolverError → Prop) (bound : Nat) (m : Resolving α) (scope : Scope) :
    Prop where
  errors : ∀ a after, m scope = .returned a after →
    ∀ error ∈ after.errors, error ∈ scope.errors ∨ ok error
  peak : (m scope).thread.depth.peak ≤ max scope.thread.depth.peak bound

theorem staysWithin_pure (a : α) (scope : Scope) :
    StaysWithin ok bound (pure a : Resolving α) scope where
  errors := by
    rintro _ _ ⟨⟩ error herror
    exact .inl herror
  peak := Nat.le_max_left ..

theorem staysWithin_breakOff (scope : Scope) :
    StaysWithin ok bound (breakOff : Resolving α) scope where
  errors := nofun
  peak := Nat.le_max_left ..

/-- Steps in a row stay within the bound; the second one starts where the first one returns. -/
theorem StaysWithin.bind {first : Resolving α} {next : α → Resolving β} {scope : Scope}
    (h : StaysWithin ok bound first scope)
    (h' : ∀ a mid, first scope = .returned a mid → StaysWithin ok bound (next a) mid) :
    StaysWithin ok bound (first >>= next) scope where
  errors b after hb error herror := by
    obtain ⟨a, mid, hfirst, hnext⟩ := bind_eq_returned.1 hb
    rcases (h' a mid hfirst).errors b after hnext error herror with hmid | hok
    · exact h.errors a mid hfirst error hmid
    · exact .inr hok
  peak := by
    have hpeak := h.peak
    cases hfirst : first scope with
    | returned a mid =>
      rw [hfirst] at hpeak
      have hnext := (h' a mid hfirst).peak
      rw [bind_of_returned hfirst]
      dsimp only [Outcome.thread] at hpeak
      omega
    | brokenOff thread =>
      rw [hfirst] at hpeak
      rw [bind_of_brokenOff hfirst]
      exact hpeak

/-- Mapping a result adds nothing. -/
theorem StaysWithin.map {m : Resolving α} {scope : Scope} (h : StaysWithin ok bound m scope)
    (f : α → β) : StaysWithin ok bound (f <$> m) scope :=
  h.bind fun _ _ _ => staysWithin_pure _ _

theorem staysWithin_ofOption (a : Option α) (scope : Scope) :
    StaysWithin ok bound (ofOption a) scope := by
  cases a with
  | none => exact staysWithin_breakOff scope
  | some a => exact staysWithin_pure a scope

theorem staysWithin_text (result : Resolved) (scope : Scope) :
    StaysWithin ok bound result.text scope := by
  cases result with
  | value v => exact staysWithin_ofOption _ scope
  | placeholder label => exact staysWithin_pure _ scope

/-- An allowed problem may be recorded. -/
theorem staysWithin_record {error : ResolverError} (h : ok error) (scope : Scope) :
    StaysWithin ok bound (record error) scope where
  errors := by
    rintro _ _ ⟨⟩ other hother
    rcases List.mem_cons.1 hother with rfl | hother
    · exact .inr h
    · exact .inl hother
  peak := Nat.le_max_left ..

/-- An allowed problem may be recorded with its placeholder. -/
theorem staysWithin_failed {error : ResolverError} (h : ok error) (label : String) (scope : Scope) :
    StaysWithin ok bound (failed error label) scope :=
  (staysWithin_record h scope).bind fun _ _ _ => staysWithin_pure _ _

/-- A step that runs its body in another scope, and leaves the problems and the peak as the body
does, stays within what is allowed as the body does. -/
theorem StaysWithin.leaving {m body : Resolving α} {scope inner : Scope} {f : Scope → Scope}
    {g : Thread → Thread} (h : StaysWithin ok bound body inner)
    (hm : m scope = (body inner).leaving f g) (hinner : inner.errors = scope.errors)
    (hpeak : inner.thread.depth.peak ≤ max scope.thread.depth.peak bound)
    (herrors : ∀ after, (f after).errors = after.errors)
    (hthread : ∀ after, (f after).thread = g after.thread)
    (hleave : ∀ thread, (g thread).depth.peak = thread.depth.peak) :
    StaysWithin ok bound m scope where
  errors a after ha error herror := by
    rw [hm] at ha
    obtain ⟨last, hbody, rfl⟩ := Outcome.leaving_eq_returned.1 ha
    rw [herrors] at herror
    exact hinner ▸ h.errors a last hbody error herror
  peak := by
    have hdeep := h.peak
    rw [hm, Outcome.thread_leaving hthread, hleave]
    omega

theorem StaysWithin.withLocalArgs {args : Arguments} {body : Resolving α} {scope : Scope}
    (h : StaysWithin ok bound body { scope with localArgs := some args }) :
    StaysWithin ok bound (withLocalArgs args body) scope :=
  h.leaving (withLocalArgs_eq args body scope) rfl (Nat.le_max_left ..) (fun _ => rfl)
    (fun _ => rfl) fun _ => rfl

theorem StaysWithin.withPlace {place : Place} {body : Resolving α} {scope : Scope}
    (h : StaysWithin ok bound body { scope with trail := place :: scope.trail }) :
    StaysWithin ok bound (withPlace place body) scope :=
  h.leaving (withPlace_eq place body scope) rfl (Nat.le_max_left ..) (fun _ => rfl)
    (fun _ => rfl) fun _ => rfl

/-- A level may be entered if the bound allows it, and refused if the refusal is allowed. -/
theorem staysWithin_guarded {limit : Nat} {atLimit body : Resolving α} {scope : Scope}
    (hl : scope.thread.depth.enter? limit = none → StaysWithin ok bound atLimit scope)
    (h : ∀ depth, scope.thread.depth.enter? limit = some depth →
      scope.thread.depth.current + 1 ≤ bound ∧
        StaysWithin ok bound body (scope.withDepth depth)) :
    StaysWithin ok bound (guarded limit atLimit body) scope := by
  cases he : scope.thread.depth.enter? limit with
  | none =>
    have hsame : guarded limit atLimit body scope = atLimit scope := guarded_of_full he
    obtain ⟨herrors, hpeak⟩ := hl he
    exact ⟨by rwa [hsame], by rwa [hsame]⟩
  | some depth =>
    obtain ⟨hbound, hbody⟩ := h depth he
    have hpeak : depth.peak = max scope.thread.depth.peak (scope.thread.depth.current + 1) :=
      (Depth.enter?_eq_some_iff.1 he).2.2
    refine hbody.leaving (guarded_of_entered he) rfl ?_ (fun _ => rfl) (fun _ => rfl) fun _ => rfl
    show depth.peak ≤ _
    omega

end Resolving

/-! ## A run is decided at its moments -/

/-- What is recorded at the moments of a kind is allowed, none of them enters a level beyond the
bound, and they lead to no moments of another kind.  At the limit an expression is refused, and a
pattern that is on the trail is not resolved again; all other problems are allowed anyway. -/
structure Permits (session : Session) (formatter : Formatter) (ok : ResolverError → Prop)
    (bound : Nat) (good : Moment → Prop) : Prop where
  step : ∀ {m next : Moment}, good m → Starts session formatter m next → good next
  tooDeep : ∀ {room : Nat} {place : Place} {e : Expression} {scope : Scope},
    good ⟨room, .expression place e, scope⟩ →
      room = 0 ∨ scope.thread.depth.enter? formatter.limit = none →
        ok (.depthExceeded formatter.limit)
  enters : ∀ {room : Nat} {place : Place} {e : Expression} {scope : Scope} {depth : Depth},
    good ⟨room + 1, .expression place e, scope⟩ →
      scope.thread.depth.enter? formatter.limit = some depth →
        scope.thread.depth.current + 1 ≤ bound
  cyclic : ∀ {room : Nat} {place : Place} {label : String} {p : Pattern} {scope : Scope},
    good ⟨room, .pattern place label p, scope⟩ → place ∈ scope.trail → ok (.cyclic label)
  other : ∀ error, (∀ label, error ≠ .cyclic label) → (∀ limit, error ≠ .depthExceeded limit) →
    ok error

namespace Permits

variable {session : Session} {formatter : Formatter} {ok : ResolverError → Prop} {bound : Nat}
  {good : Moment → Prop}

/-- A reference that leads nowhere is allowed anyway. -/
theorem reference (h : Permits session formatter ok bound good) {error : ResolverError}
    (hkind : error.category = .reference) : ok error := by
  refine h.other error ?_ ?_
  · rintro label rfl
    cases hkind
  · rintro limit rfl
    cases hkind

/-- With the given room, expressions stay within what is allowed. -/
def AtRoom (session : Session) (formatter : Formatter) (ok : ResolverError → Prop) (bound : Nat)
    (good : Moment → Prop) (room : Nat) : Prop :=
  ∀ place e scope, good ⟨room, .expression place e, scope⟩ →
    StaysWithin ok bound (session.resolve room formatter place e) scope

/-- The elements of a pattern stay within the bound, by induction on those left. -/
theorem elements (h : Permits session formatter ok bound good) {room : Nat}
    (hroom : AtRoom session formatter ok bound good room) (isolating : Bool) (place : Place)
    (list : List PatternElement) (index : Nat) (scope : Scope)
    (hgood : good ⟨room, .elements isolating place index list, scope⟩) :
    StaysWithin ok bound
      ((session.level room formatter).elements isolating place index list) scope := by
  induction list generalizing index scope with
  | nil => exact staysWithin_pure _ scope
  | cons element rest ih =>
    cases element with
    | text value =>
      exact (ih _ _ (h.step hgood .text)).bind fun _ _ _ => staysWithin_pure _ _
    | placeable e =>
      refine (hroom _ _ _ (h.step hgood .placeable)).bind fun result mid he => ?_
      refine (staysWithin_text result mid).bind fun text written htext => ?_
      exact (ih _ _ (h.step hgood (.following he htext))).bind fun _ _ _ => staysWithin_pure _ _

theorem pattern (h : Permits session formatter ok bound good) {room : Nat}
    (hroom : AtRoom session formatter ok bound good room) {place : Place} {label : String}
    {p : Pattern} {scope : Scope} (hgood : good ⟨room, .pattern place label p, scope⟩) :
    StaysWithin ok bound ((session.level room formatter).pattern place label p) scope := by
  have htrail : StaysWithin ok bound (isOnTrail place) scope :=
    ⟨by rintro _ _ ⟨⟩ error herror; exact .inl herror, Nat.le_max_left ..⟩
  refine htrail.bind fun onTrail mid hmid => ?_
  obtain ⟨rfl, rfl⟩ := Outcome.returned.inj hmid
  split
  · rename_i hon
    exact (staysWithin_record (h.cyclic hgood (of_decide_eq_true hon)) scope).bind
      fun _ _ _ => staysWithin_pure _ _
  · rename_i hoff
    have hnew : place ∉ scope.trail := by simpa using hoff
    exact (h.elements hroom _ _ _ _ _ (h.step hgood (.elements hnew))).withPlace

/-- Positional arguments stay within the bound, by induction on those left. -/
theorem arguments (h : Permits session formatter ok bound good) {room : Nat}
    (hroom : AtRoom session formatter ok bound good room) (place : Place)
    (list : List Expression) (index : Nat) (scope : Scope)
    (hgood : good ⟨room, .arguments place index list, scope⟩) :
    StaysWithin ok bound ((session.level room formatter).arguments place index list) scope := by
  induction list generalizing index scope with
  | nil => exact staysWithin_pure _ scope
  | cons e rest ih =>
    refine (hroom _ _ _ (h.step hgood .argument)).bind fun result mid he => ?_
    cases result with
    | placeholder label => exact staysWithin_pure _ mid
    | value v => exact (ih _ _ (h.step hgood (.nextArgument he))).map _

/-- A call that asks for no texts ends at once. -/
theorem run (h : Permits session formatter ok bound good) {call : Call} (hplain : call.IsPlain)
    (level : Level) {next : CallResult → Resolving Resolved} {scope : Scope}
    (hvalue : ∀ v, next (.value v) = pure (.value v))
    (hfailure : ∀ reason, ∃ name label, next (.failure reason) =
      failed (.functionFailed name reason) label)
    (hbroken : ∃ name label, next .brokenOff = failed (.functionBrokeOff name) label) :
    StaysWithin ok bound (level.run call >>= next) scope := by
  have hrun : StaysWithin ok bound (level.run call) scope := by
    cases call with
    | value | failure | breakOff =>
      exact ⟨by rintro _ _ ⟨⟩ error herror; exact .inl herror, Nat.le_max_left ..⟩
    | format => exact hplain.elim
  refine hrun.bind fun result mid _ => ?_
  cases result with
  | value v =>
    rw [hvalue]
    exact staysWithin_pure _ mid
  | failure reason =>
    obtain ⟨name, label, heq⟩ := hfailure reason
    rw [heq]
    exact staysWithin_failed (h.other _ (by simp) (by simp)) _ mid
  | brokenOff =>
    obtain ⟨name, label, heq⟩ := hbroken
    rw [heq]
    exact staysWithin_failed (h.other _ (by simp) (by simp)) _ mid

section Expression

variable (h : Permits session formatter ok bound good) {room : Nat}
  (hroom : AtRoom session formatter ok bound good room) {place : Place} {e : Expression}
  {scope : Scope} {depth : Depth} (hgood : good ⟨room + 1, .expression place e, scope⟩)
  (henter : scope.thread.depth.enter? formatter.limit = some depth)
include h hroom hgood henter

theorem message {id : Identifier} {attr : Option Identifier} (he : e.peeled = .message id attr) :
    StaysWithin ok bound
      ((session.level room formatter).message id.name (attr.map (·.name)))
      (scope.withDepth depth) := by
  rcases (session.level room formatter).message_cases id.name (attr.map (·.name)) with
    ⟨p, hp, heq⟩ | ⟨-, error, label, hkind, heq⟩
  · rw [heq]
    exact (h.pattern hroom (h.step hgood (.message henter he hp))).map _
  · rw [heq]
    exact staysWithin_failed (h.reference hkind) label _

theorem term {id : Identifier} {attr : Option Identifier} {arguments : Option CallArguments}
    (he : e.peeled = .term id attr arguments) :
    StaysWithin ok bound
      ((session.level room formatter).term id.name (attr.map (·.name)) arguments)
      (scope.withDepth depth) := by
  rcases (session.level room formatter).term_cases id.name (attr.map (·.name)) arguments with
    ⟨p, hp, heq⟩ | ⟨-, error, label, hkind, heq⟩
  · rw [heq]
    exact (h.pattern hroom (h.step hgood (.term henter he hp))).withLocalArgs.map _
  · rw [heq]
    exact staysWithin_failed (h.reference hkind) label _

/-- A function call stays within the bound, if functions do not call back. -/
theorem function (hplain : formatter.functions.IsPlain) {id : Identifier} {call : CallArguments}
    (he : e.peeled = .function id call) :
    StaysWithin ok bound ((session.level room formatter).function place id.name call)
      (scope.withDepth depth) := by
  unfold Level.function
  dsimp only
  split
  · exact staysWithin_failed (h.other _ (by simp) (by simp)) _ _
  · rename_i f hf
    have harguments := h.arguments hroom place call.positional 0 _
      (h.step hgood (.call henter he hf))
    refine harguments.bind fun positional mid _ => ?_
    cases positional with
    | none => exact staysWithin_pure _ mid
    | some values =>
      exact h.run (hplain _ _ hf _ _) _ (fun _ => rfl) (fun _ => ⟨_, _, rfl⟩) ⟨_, _, rfl⟩

theorem select {s : Selection} (he : e.peeled = .select s) :
    StaysWithin ok bound ((session.level room formatter).select place s)
      (scope.withDepth depth) := by
  rw [Level.select_eq]
  refine (hroom _ _ _ (h.step hgood (.selector henter he))).bind fun result mid hresult => ?_
  have hindex : StaysWithin ok bound ((session.level room formatter).indexAfter s result) mid := by
    cases result with
    | placeholder label => exact staysWithin_pure _ mid
    | value v =>
      show StaysWithin ok bound ((session.level room formatter).variantIndex s v) mid
      unfold Level.variantIndex
      split
      · exact staysWithin_pure _ mid
      · split
        · exact (staysWithin_ofOption _ mid).bind fun _ _ _ => staysWithin_pure _ _
        · exact staysWithin_pure _ mid
  refine hindex.bind fun index chosen hchosen => ?_
  refine (staysWithin_ofOption _ chosen).bind fun v after hv => ?_
  cases hfound : s.variants[index]? with
  | none =>
    rw [hfound] at hv
    cases hv
  | some found =>
    rw [hfound] at hv
    obtain ⟨rfl, rfl⟩ := Outcome.returned.inj hv
    exact h.pattern hroom (h.step hgood (.variant henter he hresult hchosen hfound))

theorem expression (hplain : formatter.functions.IsPlain) :
    StaysWithin ok bound ((session.level room formatter).expression place e.peeled)
      (scope.withDepth depth) := by
  cases he : e.peeled with
  | string | number => exact staysWithin_pure _ _
  | var id =>
    have hvalue : StaysWithin ok bound (valueOf? id.name) (scope.withDepth depth) :=
      ⟨by rintro _ _ ⟨⟩ error herror; exact .inl herror, Nat.le_max_left ..⟩
    refine hvalue.bind fun value mid _ => ?_
    cases value with
    | none => exact staysWithin_failed (h.other _ (by simp) (by simp)) _ mid
    | some v => exact staysWithin_pure _ mid
  | message id attr => exact h.message hroom hgood henter he
  | term id attr arguments => exact h.term hroom hgood henter he
  | function id call => exact h.function hroom hgood henter hplain he
  | select s => exact (h.select hroom hgood henter he).map _
  | placeable inner => exact absurd he (e.peeled_ne_placeable inner)

end Expression

/-- **A run records, and enters, only what is permitted at its moments.** -/
theorem resolve (h : Permits session formatter ok bound good)
    (hplain : formatter.functions.IsPlain) (room : Nat) :
    AtRoom session formatter ok bound good room := by
  induction room with
  | zero =>
    intro place e scope hgood
    exact staysWithin_failed (h.tooDeep hgood (.inl rfl)) _ scope
  | succ room ih =>
    intro place e scope hgood
    refine staysWithin_guarded (fun hnone => ?_) fun depth henter => ⟨h.enters hgood henter, ?_⟩
    · exact staysWithin_failed (h.tooDeep hgood (.inr hnone)) _ scope
    · exact h.expression ih hgood henter hplain

end Permits

end Fluent
