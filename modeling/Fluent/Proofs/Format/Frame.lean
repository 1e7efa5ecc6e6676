/-
# What a resolution leaves alone

A resolution that returns leaves the scope as it found it, apart from the problems that it adds and
from what the thread remembers.

* `Scope.Keeps` : the second scope is the first one with more problems;
* `Session.frames_resolve` : finding the value of an expression keeps the scope.
-/
import Fluent.Format.DepthBalance

namespace Fluent

/-- The scope afterwards sees the same values, is on the same trail and at the same depth; problems
have only been added. -/
structure Scope.Keeps (before after : Scope) : Prop where
  args : after.args = before.args
  localArgs : after.localArgs = before.localArgs
  trail : after.trail = before.trail
  depth : after.thread.depth.current = before.thread.depth.current
  errors : before.errors <:+ after.errors

namespace Scope.Keeps

variable {a b c : Scope}

/-- A scope keeps itself. -/
theorem refl (a : Scope) : a.Keeps a :=
  ⟨rfl, rfl, rfl, rfl, List.suffix_refl _⟩

/-- What is kept twice is kept. -/
theorem trans (h : a.Keeps b) (h' : b.Keeps c) : a.Keeps c :=
  ⟨h'.args.trans h.args, h'.localArgs.trans h.localArgs, h'.trail.trans h.trail,
    h'.depth.trans h.depth, h.errors.trans h'.errors⟩

/-- The same arguments are visible in a scope that was kept. -/
theorem visibleArgs (h : a.Keeps b) : b.visibleArgs = a.visibleArgs := by
  rw [Scope.visibleArgs, Scope.visibleArgs, h.args, h.localArgs]

/-- If no problem is left over in the end, none was added on the way. -/
theorem errors_eq (h : a.Keeps b) (h' : b.Keeps c) (hc : c.errors = a.errors) :
    b.errors = a.errors ∧ c.errors = b.errors := by
  have hb : b.errors = a.errors :=
    (h.errors.eq_of_length (Nat.le_antisymm h.errors.length_le (hc ▸ h'.errors.length_le))).symm
  exact ⟨hb, hc.trans hb.symm⟩

end Scope.Keeps

namespace Resolving

variable {α β : Type}

/-- The resolution keeps every scope in which it returns. -/
def Frames (m : Resolving α) : Prop :=
  ∀ scope a after, m scope = .returned a after → scope.Keeps after

theorem frames_pure (a : α) : Frames (pure a : Resolving α) := by
  rintro scope _ _ ⟨⟩
  exact .refl scope

/-- Resolutions in a row keep the scope, if each of them does. -/
theorem frames_bind {first : Resolving α} {next : α → Resolving β} (h : Frames first)
    (h' : ∀ a, Frames (next a)) : Frames (first >>= next) := by
  intro scope b after hb
  obtain ⟨a, mid, hfirst, hnext⟩ := bind_eq_returned.1 hb
  exact (h scope a mid hfirst).trans (h' a mid b after hnext)

/-- Recording a problem keeps the scope, and the problems before it. -/
theorem frames_record (error : ResolverError) : Frames (record error) := by
  rintro scope _ _ ⟨⟩
  exact ⟨rfl, rfl, rfl, rfl, List.suffix_cons _ _⟩

/-- Arguments of its own are taken back behind a body. -/
theorem frames_withLocalArgs (args : Arguments) {body : Resolving α} (h : Frames body) :
    Frames (withLocalArgs args body) := by
  intro scope a after ha
  rw [withLocalArgs_eq] at ha
  obtain ⟨inner, hbody, rfl⟩ := Outcome.leaving_eq_returned.1 ha
  have hk := h _ _ _ hbody
  exact ⟨hk.args, rfl, hk.trail, hk.depth, hk.errors⟩

/-- The place of a body is taken off the trail behind it. -/
theorem frames_withPlace (place : Place) {body : Resolving α} (h : Frames body) :
    Frames (withPlace place body) := by
  intro scope a after ha
  rw [withPlace_eq] at ha
  obtain ⟨inner, hbody, rfl⟩ := Outcome.leaving_eq_returned.1 ha
  have hk := h _ _ _ hbody
  exact ⟨hk.args, hk.localArgs, congrArg List.tail hk.trail, hk.depth, hk.errors⟩

/-- A guarded body keeps the scope on both branches of the guard. -/
theorem frames_guarded (limit : Nat) {atLimit body : Resolving α} (hl : Frames atLimit)
    (h : Frames body) : Frames (guarded limit atLimit body) := by
  intro scope a after ha
  cases he : scope.thread.depth.enter? limit with
  | none =>
    rw [guarded_of_full he] at ha
    exact hl scope a after ha
  | some entered =>
    rw [guarded_of_entered he] at ha
    obtain ⟨inner, hbody, rfl⟩ := Outcome.leaving_eq_returned.1 ha
    have hk := h _ _ _ hbody
    -- the level that was entered is left again
    have hdepth : inner.thread.depth.leave.current = scope.thread.depth.current := by
      rw [← Depth.current_leave_of_enter? he]
      exact congrArg (· - 1) hk.depth
    exact ⟨hk.args, hk.localArgs, hk.trail, hdepth, hk.errors⟩

/-- The steps of resolving keep the scope. -/
theorem congruence_frames : Congruence fun m _ => Frames m where
  pure := frames_pure
  bind := frames_bind
  breakOff := nofun
  record := frames_record
  valueOf? name := by
    rintro scope _ _ ⟨⟩
    exact .refl scope
  isOnTrail place := by
    rintro scope _ _ ⟨⟩
    exact .refl scope
  withLocalArgs args _ _ := frames_withLocalArgs args
  withPlace place _ _ := frames_withPlace place

end Resolving

open Resolving

namespace Session

variable (session : Session)

theorem frames_tooDeep (limit : Nat) : Frames (tooDeep limit) :=
  congruence_frames.failed _ _

/-- A function's call keeps the scope: the texts it asks for have scopes of their own. -/
theorem frames_run (room : Nat) (formatter : Formatter) (call : Call) :
    Frames ((session.level room formatter).run call) := by
  rintro scope _ _ ⟨⟩
  have hask : AskBalances session.limit (session.level room formatter).ask := fun n =>
    session.balances_formatAt room (session.formatter_mem n)
  exact ⟨rfl, rfl, rfl, (balances_run hask call scope.thread).1, List.suffix_refl _⟩

/-- Finding the value of an expression keeps the scope. -/
theorem frames_resolve (room : Nat) (formatter : Formatter) (place : Place) (e : Expression) :
    Frames (session.resolve room formatter place e) := by
  induction room generalizing place e with
  | zero => exact frames_tooDeep _
  | succ room ih =>
    have hlevel : (session.level room formatter).Related (fun m _ => Frames m)
        (session.level room formatter) :=
      ⟨rfl, ih, fun call _ => session.frames_run room formatter call⟩
    exact frames_guarded _ (frames_tooDeep _) (hlevel.expression congruence_frames _ _)

end Session

end Fluent
