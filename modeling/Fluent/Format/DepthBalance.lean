/-
# The depth is balanced

Whatever a resolution does, and however it ends, the depth afterwards is the depth before, and it
never grows beyond the greatest limit in use.  This holds of every step, and so of whole runs:

* `Session.balanced_resolve` : of the value of any expression;
* `Session.balances_formatAt` : of any text that is asked for.
-/
import Fluent.Format.Congruence

namespace Fluent

/-- The depth after something is the depth before; the peak is not forgotten, and stays below the
limit unless it was above before. -/
def Thread.Balances (limit : Nat) (before after : Thread) : Prop :=
  after.depth.current = before.depth.current ∧ before.depth.peak ≤ after.depth.peak ∧
    after.depth.peak ≤ max before.depth.peak limit

namespace Thread

variable {limit : Nat} {a b c : Thread}

/-- A thread that nothing has touched is balanced with itself. -/
theorem Balances.refl (limit : Nat) (a : Thread) : Balances limit a a :=
  ⟨rfl, Nat.le_refl _, Nat.le_max_left ..⟩

/-- Balance of one step after another is balance of both. -/
theorem Balances.trans (h : Balances limit a b) (h' : Balances limit b c) : Balances limit a c := by
  unfold Balances at *
  omega

/-- Noting problems does not touch the depth. -/
theorem Balances.note (h : Balances limit a b) (errors : List ResolverError) :
    Balances limit a (b.note errors) :=
  h

end Thread

/-- What texts that are asked for do to the depth. -/
def AskBalances (limit : Nat) (ask : Nat → Request → Thread → Formatted × Thread) : Prop :=
  ∀ place request (thread : Thread), thread.Balances limit (ask place request thread).2

namespace Resolving

variable {α β : Type} {limit : Nat}

/-- The resolution is balanced in every scope. -/
def Balanced (limit : Nat) (m : Resolving α) : Prop :=
  ∀ scope : Scope, scope.thread.Balances limit (m scope).thread

/-- A program that only returns takes no level. -/
theorem balanced_pure (a : α) : Balanced limit (pure a : Resolving α) :=
  fun scope => .refl limit scope.thread

/-- Two balanced programs one after the other are balanced. -/
theorem balanced_bind {first : Resolving α} {next : α → Resolving β}
    (h : Balanced limit first) (h' : ∀ a, Balanced limit (next a)) :
    Balanced limit (first >>= next) := by
  intro scope
  have hs := h scope
  cases hf : first scope with
  | returned a mid =>
    rw [hf] at hs
    rw [bind_of_returned hf]
    exact hs.trans (h' a mid)
  | brokenOff thread =>
    rw [hf] at hs
    rw [bind_of_brokenOff hf]
    exact hs

/-- Breaking off leaves the count where it is. -/
theorem balanced_breakOff : Balanced limit (breakOff : Resolving α) :=
  fun scope => .refl limit scope.thread

theorem balanced_record (error : ResolverError) : Balanced limit (record error) :=
  fun scope => .refl limit scope.thread

theorem balanced_valueOf? (name : String) : Balanced limit (valueOf? name) :=
  fun scope => .refl limit scope.thread

theorem balanced_isOnTrail (place : Place) : Balanced limit (isOnTrail place) :=
  fun scope => .refl limit scope.thread

/-- Giving a body its own arguments keeps its balance. -/
theorem balanced_withLocalArgs (args : Arguments) {body : Resolving α} (h : Balanced limit body) :
    Balanced limit (withLocalArgs args body) := by
  intro scope
  rw [thread_withLocalArgs]
  exact h { scope with localArgs := some args }

/-- Putting a place on the trail of a body keeps its balance. -/
theorem balanced_withPlace (place : Place) {body : Resolving α} (h : Balanced limit body) :
    Balanced limit (withPlace place body) := by
  intro scope
  rw [thread_withPlace]
  exact h { scope with trail := place :: scope.trail }

/-- Leaving makes up for entering. -/
theorem balances_leave {own : Nat} (hown : own ≤ limit) {before after : Thread} {entered : Depth}
    (h : before.depth.enter? own = some entered)
    (hb : Thread.Balances limit { before with depth := entered } after) :
    before.Balances limit after.leave := by
  obtain ⟨hlt, hc, hp⟩ := Depth.enter?_eq_some_iff.1 h
  obtain ⟨hc', hm, hp'⟩ := hb
  dsimp only at hc' hm hp'
  refine ⟨?_, ?_, ?_⟩
  · simp only [Thread.leave, Depth.leave]
    omega
  · simp only [Thread.leave, Depth.leave]
    omega
  · simp only [Thread.leave, Depth.leave]
    omega

/-- A guarded body is balanced for every bound that its own limit keeps to: the guard leaves the
level it has entered. -/
theorem balanced_guarded {own : Nat} (hown : own ≤ limit) {atLimit body : Resolving α}
    (hl : Balanced limit atLimit) (h : Balanced limit body) :
    Balanced limit (guarded own atLimit body) := by
  intro scope
  cases he : scope.thread.depth.enter? own with
  | none =>
    rw [guarded_of_full he]
    exact hl scope
  | some entered =>
    rw [thread_guarded he]
    exact balances_leave hown he (h (scope.withDepth entered))

end Resolving

open Resolving

/-! ## The steps of a level -/

/-- The steps of resolving are balanced. -/
theorem congruence_balanced (limit : Nat) : Congruence fun m _ => Balanced limit m where
  pure := balanced_pure
  bind := balanced_bind
  breakOff := balanced_breakOff
  record := balanced_record
  valueOf? := balanced_valueOf?
  isOnTrail := balanced_isOnTrail
  withLocalArgs args _ _ := balanced_withLocalArgs args
  withPlace place _ _ := balanced_withPlace place

theorem balanced_failed {limit : Nat} (error : ResolverError) (label : String) :
    Balanced limit (failed error label) :=
  (congruence_balanced limit).failed error label

/-- A function's call is balanced when every format it asks for is. -/
theorem balances_run {limit : Nat} {ask : Nat → Request → Thread → Formatted × Thread}
    (h : AskBalances limit ask) (call : Call) (thread : Thread) :
    thread.Balances limit (call.run ask thread).2 := by
  -- the induction is on the call: each text that it asks for is followed by the rest of it
  induction call generalizing thread with
  | value v => exact .refl limit thread
  | failure error => exact .refl limit thread
  | breakOff => exact .refl limit thread
  | format place request resume ih => exact ((h place request thread).note _).trans (ih _ _)

/-- Containment puts the count back to where it found it, also after a break-off. -/
theorem balances_contained {limit : Nat} (label : String) (args : Arguments)
    {body : Resolving Resolved} (h : Balanced limit body) (thread : Thread) :
    thread.Balances limit (contained label args body thread).2 := by
  have hs := balanced_bind h (congruence_balanced limit).text { args := args, thread := thread }
  unfold contained
  split
  · rename_i text scope hr
    rw [hr] at hs
    exact hs
  · rename_i after hr
    rw [hr] at hs
    exact hs

/-! ## Whole runs -/

namespace Session

variable (session : Session)

/-- With the given room, expressions and texts are balanced. -/
theorem balanced_at (room : Nat) :
    (∀ formatter ∈ session.formatters, ∀ place e,
      Balanced session.limit (session.resolve room formatter place e)) ∧
    (∀ formatter ∈ session.formatters, ∀ request (thread : Thread),
      thread.Balances session.limit (session.formatAt room formatter request thread).2) := by
  -- the induction is on the room: what a level asks for is resolved with less of it
  induction room with
  | zero =>
    exact ⟨fun formatter _ place e => balanced_failed _ _,
      fun formatter _ request thread => balances_contained _ _ (balanced_failed _ _) thread⟩
  | succ room ih =>
    have hsteps := congruence_balanced session.limit
    have hask : AskBalances session.limit fun n => session.formatAt room (session.formatter n) :=
      fun n => ih.2 (session.formatter n) (session.formatter_mem n)
    have hlevel : ∀ formatter ∈ session.formatters,
        (session.level room formatter).Related (fun m _ => Balanced session.limit m)
          (session.level room formatter) :=
      fun formatter hf =>
        ⟨rfl, ih.1 formatter hf, fun call _ scope => balances_run hask call scope.thread⟩
    refine ⟨fun formatter hf place e => ?_, fun formatter hf request thread => ?_⟩
    · exact balanced_guarded (limit_le hf) (balanced_failed _ _)
        ((hlevel formatter hf).expression hsteps _ _)
    · exact balances_contained _ _ (balanced_guarded (limit_le hf) (balanced_failed _ _)
        ((hlevel formatter hf).target hsteps _)) thread

/-- Finding the value of an expression leaves the depth as it was and within the limit. -/
theorem balanced_resolve (room : Nat) {formatter : Formatter} (h : formatter ∈ session.formatters)
    (place : Place) (e : Expression) :
    Balanced session.limit (session.resolve room formatter place e) :=
  (session.balanced_at room).1 formatter h place e

/-- Formatting leaves the depth as it was and within the limit. -/
theorem balances_formatAt (room : Nat) {formatter : Formatter} (h : formatter ∈ session.formatters)
    (request : Request) (thread : Thread) :
    thread.Balances session.limit (session.formatAt room formatter request thread).2 :=
  (session.balanced_at room).2 formatter h request thread

end Session

end Fluent
