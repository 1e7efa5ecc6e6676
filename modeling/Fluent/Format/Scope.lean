/-
# Scopes

Resolving an expression reads the values of variables, knows which patterns are being resolved, and
records problems.  It either returns or breaks off; what breaks off keeps only what outlives the
scope.
-/
import Fluent.Format.Depth
import Fluent.Format.Function

namespace Fluent

/-! ## Places -/

/-- Where a pattern comes from. -/
inductive Origin
  | message (id : String) (attr : Option String)
  | term (id : String) (attr : Option String)
  | standalone
deriving DecidableEq

/-- The place of a pattern or an expression: the pattern that it lies in, and the way down to it,
the last step first. -/
structure Place where
  origin : Origin
  path : List Nat := []
deriving DecidableEq

/-- The place one step further down. -/
def Place.step (place : Place) (index : Nat) : Place :=
  { place with path := index :: place.path }

/-! ## State -/

/-- What outlives a scope: the depth, and the problems of the texts that functions asked for. -/
structure Thread where
  depth : Depth := {}
  callErrors : List ResolverError := []

/-- What a resolution reads and changes. -/
structure Scope where
  /-- The values of variables. -/
  args : Arguments
  /-- Inside a term, the values that were given to it; it sees no others. -/
  localArgs : Option Arguments := none
  /-- The places of the patterns that are being resolved. -/
  trail : List Place := []
  /-- The problems met, the last one first. -/
  errors : List ResolverError := []
  thread : Thread := {}

namespace Scope

/-- The values that variables have here. -/
def visibleArgs (scope : Scope) : Arguments :=
  scope.localArgs.getD scope.args

/-- Adds a problem. -/
def record (error : ResolverError) (scope : Scope) : Scope :=
  { scope with errors := error :: scope.errors }

/-- The scope at another depth. -/
def withDepth (depth : Depth) (scope : Scope) : Scope :=
  { scope with thread := { scope.thread with depth := depth } }

end Scope

/-- One resolution less. -/
def Thread.leave (thread : Thread) : Thread :=
  { thread with depth := thread.depth.leave }

/-- Adds problems of a text that a function asked for. -/
def Thread.note (errors : List ResolverError) (thread : Thread) : Thread :=
  { thread with callErrors := thread.callErrors ++ errors }

/-! ## Resolving -/

/-- How a resolution ends: it returns with a scope, or it breaks off. -/
inductive Outcome (α : Type)
  | returned (result : α) (scope : Scope)
  | brokenOff (thread : Thread)

/-- What outlives the scope, however the resolution ends. -/
def Outcome.thread {α : Type} : Outcome α → Thread
  | .returned _ scope => scope.thread
  | .brokenOff thread => thread

/-- A resolution. -/
def Resolving (α : Type) : Type :=
  Scope → Outcome α

namespace Resolving

variable {α β : Type}

instance : Monad Resolving where
  pure a := fun scope => .returned a scope
  bind first next := fun scope =>
    match first scope with
    | .returned a scope => next a scope
    | .brokenOff thread => .brokenOff thread

/-- What returns is gone on from. -/
theorem bind_of_returned {first : Resolving α} {next : α → Resolving β} {scope mid : Scope} {a : α}
    (h : first scope = .returned a mid) : (first >>= next) scope = next a mid := by
  simp only [Bind.bind, h]

/-- What breaks off is not gone on from. -/
theorem bind_of_brokenOff {first : Resolving α} {next : α → Resolving β} {scope : Scope}
    {thread : Thread} (h : first scope = .brokenOff thread) :
    (first >>= next) scope = .brokenOff thread := by
  simp only [Bind.bind, h]

/-- Two resolutions in a row return if both do. -/
theorem bind_eq_returned {first : Resolving α} {next : α → Resolving β} {scope after : Scope}
    {b : β} :
    (first >>= next) scope = .returned b after ↔
      ∃ a mid, first scope = .returned a mid ∧ next a mid = .returned b after := by
  show (match first scope with
    | .returned a mid => next a mid
    | .brokenOff thread => .brokenOff thread) = _ ↔ _
  cases first scope with
  | returned a mid =>
    constructor
    · exact fun h => ⟨a, mid, rfl, h⟩
    · rintro ⟨_, _, h, hn⟩
      cases h
      exact hn
  | brokenOff thread =>
    constructor
    · intro h
      cases h
    · rintro ⟨_, _, h, -⟩
      cases h

/-- Breaks off. -/
def breakOff : Resolving α := fun scope =>
  .brokenOff scope.thread

/-- Adds a problem. -/
def record (error : ResolverError) : Resolving Unit := fun scope =>
  .returned () (scope.record error)

/-- What is there, or breaks off. -/
def ofOption : Option α → Resolving α
  | some a => pure a
  | none => breakOff

/-- The value that a variable has here. -/
def valueOf? (name : String) : Resolving (Option Value) := fun scope =>
  .returned (scope.visibleArgs.find? name) scope

/-- Resolves with only the given values visible, as inside a term. -/
def withLocalArgs (args : Arguments) (body : Resolving α) : Resolving α := fun scope =>
  match body { scope with localArgs := some args } with
  | .returned a after => .returned a { after with localArgs := scope.localArgs }
  | .brokenOff thread => .brokenOff thread

/-- Resolves with a place on the trail. -/
def withPlace (place : Place) (body : Resolving α) : Resolving α := fun scope =>
  match body { scope with trail := place :: scope.trail } with
  | .returned a after => .returned a { after with trail := after.trail.tail }
  | .brokenOff thread => .brokenOff thread

/-- The place is on the trail. -/
def isOnTrail (place : Place) : Resolving Bool := fun scope =>
  .returned (decide (place ∈ scope.trail)) scope

/-- Resolves one level deeper, or else does what is to be done at the limit. -/
def guarded (limit : Nat) (atLimit body : Resolving α) : Resolving α := fun scope =>
  match scope.thread.depth.enter? limit with
  | none => atLimit scope
  | some depth =>
    match body (scope.withDepth depth) with
    | .returned a after => .returned a (after.withDepth after.thread.depth.leave)
    | .brokenOff thread => .brokenOff thread.leave

end Resolving

/-! ## Steps with a body -/

/-- The outcome of a body with something done to the scope, or to the thread, that it leaves. -/
def Outcome.leaving {α : Type} (f : Scope → Scope) (g : Thread → Thread) : Outcome α → Outcome α
  | .returned a after => .returned a (f after)
  | .brokenOff thread => .brokenOff (g thread)

section Leaving

variable {α : Type} {f : Scope → Scope} {g : Thread → Thread} {outcome : Outcome α}

/-- What a body has returned is returned on leaving, with the scope put back by the given map. -/
theorem Outcome.leaving_eq_returned {a : α} {after : Scope} :
    outcome.leaving f g = .returned a after ↔
      ∃ inner, outcome = .returned a inner ∧ f inner = after := by
  cases outcome with
  | returned b inner =>
    constructor
    · rintro ⟨⟩
      exact ⟨inner, rfl, rfl⟩
    · rintro ⟨_, ⟨⟩, rfl⟩
      rfl
  | brokenOff thread =>
    constructor
    · exact nofun
    · rintro ⟨_, ⟨⟩, -⟩

/-- Leaving a body carries its thread out in both cases, returned and broken off. -/
theorem Outcome.thread_leaving (h : ∀ scope, (f scope).thread = g scope.thread) :
    (outcome.leaving f g).thread = g outcome.thread := by
  cases outcome with
  | returned b inner => exact h inner
  | brokenOff thread => rfl

end Leaving

namespace Resolving

variable {α : Type} {body : Resolving α} {scope : Scope}

/-- A body with its own arguments runs in the scope that holds them, and the former ones come back
after it. -/
theorem withLocalArgs_eq (args : Arguments) (body : Resolving α) (scope : Scope) :
    withLocalArgs args body scope = (body { scope with localArgs := some args }).leaving
      (fun after => { after with localArgs := scope.localArgs }) id := by
  unfold withLocalArgs
  cases body _ <;> rfl

/-- A body under a place runs with that place on the trail, and the former trail comes back after
it. -/
theorem withPlace_eq (place : Place) (body : Resolving α) (scope : Scope) :
    withPlace place body scope = (body { scope with trail := place :: scope.trail }).leaving
      (fun after => { after with trail := after.trail.tail }) id := by
  unfold withPlace
  cases body _ <;> rfl

/-- Below the limit the body is resolved one level deeper. -/
theorem guarded_of_entered {limit : Nat} {atLimit : Resolving α} {entered : Depth}
    (h : scope.thread.depth.enter? limit = some entered) :
    guarded limit atLimit body scope = (body (scope.withDepth entered)).leaving
      (fun after => after.withDepth after.thread.depth.leave) Thread.leave := by
  unfold guarded
  rw [h]
  dsimp only
  cases body _ <;> rfl

/-- At the limit it is not. -/
theorem guarded_of_full {limit : Nat} {atLimit : Resolving α}
    (h : scope.thread.depth.enter? limit = none) :
    guarded limit atLimit body scope = atLimit scope := by
  unfold guarded
  rw [h]

/-- The thread after a body with its own arguments is the one the body leaves. -/
theorem thread_withLocalArgs (args : Arguments) : (withLocalArgs args body scope).thread =
    (body { scope with localArgs := some args }).thread := by
  rw [withLocalArgs_eq]
  exact Outcome.thread_leaving fun _ => rfl

/-- The thread after a body under a place is the one the body leaves. -/
theorem thread_withPlace (place : Place) : (withPlace place body scope).thread =
    (body { scope with trail := place :: scope.trail }).thread := by
  rw [withPlace_eq]
  exact Outcome.thread_leaving fun _ => rfl

/-- A guarded body that was let in leaves its own thread, one level lower. -/
theorem thread_guarded {limit : Nat} {atLimit : Resolving α} {entered : Depth}
    (h : scope.thread.depth.enter? limit = some entered) :
    (guarded limit atLimit body scope).thread =
      (body (scope.withDepth entered)).thread.leave := by
  rw [guarded_of_entered h]
  exact Outcome.thread_leaving fun _ => rfl

end Resolving

end Fluent
