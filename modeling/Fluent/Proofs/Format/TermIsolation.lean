/-
# Terms do not see the arguments of the caller

Inside a term variables have the values that its reference gives them, and no others.  Two scopes
that differ in the arguments of the caller are therefore the same for all that a term reaches: for
messages, further terms, attributes, selectors and the arguments of functions.

* `Resolving.IgnoresArgs` : a resolution does the same whatever the caller's arguments;
* `Session.ignores_resolve` : inside a term everything does;
* `Session.term_isolated` : a reference to a term does everywhere.
-/
import Fluent.Proofs.Format.Frame

namespace Fluent

/-- The scope of another caller. -/
def Scope.withArgs (args : Arguments) (scope : Scope) : Scope :=
  { scope with args := args }

/-- The same ending in the scope of another caller. -/
def Outcome.withArgs {α : Type} (args : Arguments) : Outcome α → Outcome α
  | .returned a scope => .returned a (scope.withArgs args)
  | .brokenOff thread => .brokenOff thread

namespace Resolving

variable {α β : Type} {P : Option Arguments → Prop}

/-- Where the values given to a term are as stated, other arguments of the caller change nothing. -/
def IgnoresArgs (P : Option Arguments → Prop) (m : Resolving α) : Prop :=
  ∀ scope args, P scope.localArgs → m (scope.withArgs args) = (m scope).withArgs args

theorem ignores_pure (a : α) : IgnoresArgs P (pure a : Resolving α) :=
  fun _ _ _ => rfl

/-- Steps in a row do not look at the arguments, if the first one keeps what the term was given. -/
theorem ignores_bind {first : Resolving α} {next : α → Resolving β} (hf : Frames first)
    (h : IgnoresArgs P first) (h' : ∀ a, IgnoresArgs P (next a)) :
    IgnoresArgs P (first >>= next) := by
  intro scope args hp
  have heq := h scope args hp
  cases hfirst : first scope with
  | returned a mid =>
    rw [hfirst] at heq
    rw [bind_of_returned hfirst, bind_of_returned heq]
    -- the second part is still inside the term that the first part was in
    exact h' a mid args ((hf scope a mid hfirst).localArgs ▸ hp)
  | brokenOff thread =>
    rw [hfirst] at heq
    rw [bind_of_brokenOff hfirst, bind_of_brokenOff heq]
    rfl

theorem ignores_map {m : Resolving α} (f : α → β) (hf : Frames m) (h : IgnoresArgs P m) :
    IgnoresArgs P (f <$> m) :=
  ignores_bind hf h fun a => ignores_pure (f a)

theorem ignores_record (error : ResolverError) : IgnoresArgs P (record error) :=
  fun _ _ _ => rfl

theorem ignores_failed (error : ResolverError) (label : String) :
    IgnoresArgs P (failed error label) :=
  ignores_bind (frames_record error) (ignores_record error) fun _ => ignores_pure _

/-- Inside a term a variable does not have the value that the caller gave it. -/
theorem ignores_valueOf? (name : String) : IgnoresArgs (·.isSome) (valueOf? name) := by
  intro scope args hsome
  obtain ⟨own, hown⟩ := Option.isSome_iff_exists.1 hsome
  have hvisible : (scope.withArgs args).visibleArgs = scope.visibleArgs := by
    simp only [Scope.visibleArgs, Scope.withArgs, hown, Option.getD_some]
  rw [valueOf?, valueOf?, hvisible]
  rfl

/-- What ignores the caller inside a term ignores it everywhere once it is put inside a term. -/
theorem ignores_withLocalArgs (own : Arguments) {body : Resolving α}
    (h : IgnoresArgs (·.isSome) body) : IgnoresArgs P (withLocalArgs own body) := by
  intro scope args _
  have heq := h { scope with localArgs := some own } args rfl
  simp only [Scope.withArgs] at heq
  simp only [withLocalArgs, Scope.withArgs, heq]
  cases body { scope with localArgs := some own } with
  | returned a after => rfl
  | brokenOff thread => rfl

theorem ignores_withPlace (place : Place) {body : Resolving α} (h : IgnoresArgs P body) :
    IgnoresArgs P (withPlace place body) := by
  intro scope args hp
  have heq := h { scope with trail := place :: scope.trail } args hp
  simp only [Scope.withArgs] at heq
  simp only [withPlace, Scope.withArgs, heq]
  cases body { scope with trail := place :: scope.trail } with
  | returned a after => rfl
  | brokenOff thread => rfl

theorem ignores_guarded (limit : Nat) {atLimit body : Resolving α} (hl : IgnoresArgs P atLimit)
    (h : IgnoresArgs P body) : IgnoresArgs P (guarded limit atLimit body) := by
  intro scope args hp
  have hdepth : (scope.withArgs args).thread.depth = scope.thread.depth := rfl
  rw [guarded, guarded, hdepth]
  cases scope.thread.depth.enter? limit with
  | none => exact hl scope args hp
  | some entered =>
    have heq : body ((scope.withArgs args).withDepth entered) = _ :=
      h (scope.withDepth entered) args hp
    dsimp only
    rw [heq]
    cases body (scope.withDepth entered) with
    | returned a after => rfl
    | brokenOff thread => rfl

/-- Inside a term the steps of resolving ignore the arguments of the caller. -/
theorem congruence_ignores :
    Congruence fun m _ => Frames m ∧ IgnoresArgs (·.isSome) m where
  pure a := ⟨frames_pure a, ignores_pure a⟩
  bind h h' := ⟨frames_bind h.1 fun a => (h' a).1, ignores_bind h.1 h.2 fun a => (h' a).2⟩
  breakOff := ⟨congruence_frames.breakOff, fun _ _ _ => rfl⟩
  record error := ⟨frames_record error, ignores_record error⟩
  valueOf? name := ⟨congruence_frames.valueOf? name, ignores_valueOf? name⟩
  isOnTrail place := ⟨congruence_frames.isOnTrail place, fun _ _ _ => rfl⟩
  withLocalArgs args _ _ h := ⟨frames_withLocalArgs args h.1, ignores_withLocalArgs args h.2⟩
  withPlace place _ _ h := ⟨frames_withPlace place h.1, ignores_withPlace place h.2⟩

end Resolving

open Resolving

/-- A reference to a term ignores the arguments of the caller, wherever it stands, if the level
below does so inside terms. -/
theorem Level.ignores_term {P : Option Arguments → Prop} {level : Level}
    (h : level.Related (fun m _ => Frames m ∧ IgnoresArgs (·.isSome) m) level) (id : String)
    (attr : Option String) (arguments : Option CallArguments) :
    IgnoresArgs P (level.term id attr arguments) := by
  have hpattern : ∀ own place label p, IgnoresArgs P
      (Resolved.ofText <$> withLocalArgs own (level.pattern place label p)) := by
    intro own place label p
    obtain ⟨hframes, hignores⟩ := h.pattern congruence_ignores place label p
    exact ignores_map _ (frames_withLocalArgs own hframes) (ignores_withLocalArgs own hignores)
  unfold Level.term
  dsimp only
  split
  · exact ignores_failed _ _
  · split
    · split
      · exact hpattern _ _ _ _
      · exact ignores_failed _ _
    · exact hpattern _ _ _ _

namespace Session

variable (session : Session)

/-- A level does the same inside terms, whatever the arguments of the caller, if expressions do.
Functions get values and the thread, and never the scope. -/
theorem related_ignores {room : Nat} {formatter : Formatter}
    (h : ∀ place e, IgnoresArgs (·.isSome) (session.resolve room formatter place e)) :
    (session.level room formatter).Related (fun m _ => Frames m ∧ IgnoresArgs (·.isSome) m)
      (session.level room formatter) :=
  ⟨rfl, fun place e => ⟨session.frames_resolve room formatter place e, h place e⟩,
    fun call _ => ⟨session.frames_run room formatter call, fun _ _ _ => rfl⟩⟩

/-- Inside a term the value of an expression does not depend on the arguments of the caller. -/
theorem ignores_resolve (room : Nat) (formatter : Formatter) (place : Place) (e : Expression) :
    IgnoresArgs (·.isSome) (session.resolve room formatter place e) := by
  induction room generalizing place e with
  | zero => exact ignores_failed _ _
  | succ room ih =>
    have hbody := ((session.related_ignores ih).expression congruence_ignores place e.peeled).2
    exact ignores_guarded _ (ignores_failed _ _) hbody

/-- A reference to a term does not depend on the arguments of the caller, wherever it stands. -/
theorem ignores_resolve_term {P : Option Arguments → Prop} (room : Nat) (formatter : Formatter)
    (place : Place) (id : Identifier) (attr : Option Identifier)
    (arguments : Option CallArguments) :
    IgnoresArgs P (session.resolve room formatter place (.term id attr arguments)) := by
  cases room with
  | zero => exact ignores_failed _ _
  | succ room =>
    have hlevel := session.related_ignores (session.ignores_resolve room formatter)
    exact ignores_guarded _ (ignores_failed _ _) (Level.ignores_term hlevel _ _ _)

/-- Two callers with whatever arguments get the same out of a reference to a term: the same value or
placeholder, the same problems added to those that were there, and a scope that is otherwise the one
they came with.  If it breaks off, it does so for both, and leaves the same thread. -/
theorem term_isolated (room : Nat) (formatter : Formatter) (place : Place) (id : Identifier)
    (attr : Option Identifier) (arguments : Option CallArguments) (scope : Scope)
    (args : Arguments) :
    let reference := session.resolve room formatter place (.term id attr arguments)
    match reference scope, reference { scope with args := args } with
    | .returned result after, .returned result' after' =>
      result' = result ∧ after' = { after with args := args } ∧ scope.Keeps after ∧
        ∃ added, after.errors = added ++ scope.errors ∧ after'.errors = added ++ scope.errors
    | .brokenOff thread, .brokenOff thread' => thread' = thread
    | _, _ => False := by
  intro reference
  have heq : reference { scope with args := args } = (reference scope).withArgs args :=
    session.ignores_resolve_term (P := fun _ => True) room formatter place id attr arguments scope
      args trivial
  rw [heq]
  cases href : reference scope with
  | returned result after =>
    have hkeeps := session.frames_resolve room formatter place _ scope result after href
    obtain ⟨added, hadded⟩ := hkeeps.errors
    exact ⟨rfl, rfl, hkeeps, added, hadded.symm, hadded.symm⟩
  | brokenOff thread => rfl

end Session

end Fluent
