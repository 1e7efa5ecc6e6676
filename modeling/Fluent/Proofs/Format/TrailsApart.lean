/-
# Runs on different trails

The trail of a run is looked at only to see whether a pattern is being resolved already.  Two runs
that come to the same patterns of entries, but whose variants stand at different places, have
different trails; nothing leads back to the place of a variant before it is left, so the trails
differ only where it does not matter.

* `Resolving.Alike` : on their trails two resolutions do the same;
* `PlacesAgree` : places that mean the same on their trails;
* `TrailsAgree.entry`, `PlacesAgree.variant` : patterns go onto both trails together.
-/
import Fluent.Proofs.Format.Trail

namespace Fluent

open Resolving

/-! ## Resolutions -/

/-- The scope on another trail. -/
def Scope.onTrail (trail : List Place) (scope : Scope) : Scope :=
  { scope with trail := trail }

/-- The outcomes are the same, each on its own trail. -/
inductive Outcome.Alike {α : Type} (trail trail' : List Place) : Outcome α → Outcome α → Prop
  | returned (a : α) (scope : Scope) :
      Outcome.Alike trail trail' (.returned a (scope.onTrail trail))
        (.returned a (scope.onTrail trail'))
  | brokenOff (thread : Thread) :
      Outcome.Alike trail trail' (.brokenOff thread) (.brokenOff thread)

/-- On one trail and on the other all is the same. -/
theorem Outcome.Alike.eq {α : Type} {trail : List Place} {outcome outcome' : Outcome α}
    (h : outcome.Alike trail trail outcome') : outcome' = outcome := by
  cases h <;> rfl

/-- Both return the same, or both break off. -/
theorem Outcome.Alike.cases {α : Type} {trail trail' : List Place} {outcome outcome' : Outcome α}
    (h : outcome.Alike trail trail' outcome') :
    (∃ a scope, outcome = .returned a (Scope.onTrail trail scope) ∧
      outcome' = .returned a (Scope.onTrail trail' scope)) ∨
    ∃ thread, outcome = .brokenOff thread ∧ outcome' = .brokenOff thread := by
  cases h with
  | returned a scope => exact .inl ⟨a, scope, rfl, rfl⟩
  | brokenOff thread => exact .inr ⟨thread, rfl, rfl⟩

/-- What is left in the same way is the same. -/
theorem Outcome.Alike.leaving {α : Type} {inner inner' trail trail' : List Place}
    {f f' : Scope → Scope} {g : Thread → Thread} {outcome outcome' : Outcome α}
    (h : outcome.Alike inner inner' outcome')
    (hf : ∀ scope : Scope, ∃ after : Scope, f (scope.onTrail inner) = after.onTrail trail ∧
      f' (scope.onTrail inner') = after.onTrail trail') :
    (outcome.leaving f g).Alike trail trail' (outcome'.leaving f' g) := by
  cases h with
  | brokenOff thread => exact .brokenOff (g thread)
  | returned a scope =>
    obtain ⟨after, hafter, hafter'⟩ := hf scope
    rw [Outcome.leaving, Outcome.leaving, hafter, hafter']
    exact .returned a after

namespace Resolving

variable {α β : Type} {trail trail' : List Place}

/-- On the first trail the first resolution does what the second one does on the second trail, and
each of them leaves its trail as it was. -/
def Alike (trail trail' : List Place) (m m' : Resolving α) : Prop :=
  ∀ scope : Scope, (m (scope.onTrail trail)).Alike trail trail' (m' (scope.onTrail trail'))

theorem alike_pure (a : α) : Alike trail trail' (pure a) (pure a) :=
  fun scope => .returned a scope

/-- Steps in a row do the same on both trails. -/
theorem Alike.bind {first first' : Resolving α} {next next' : α → Resolving β}
    (h : Alike trail trail' first first') (h' : ∀ a, Alike trail trail' (next a) (next' a)) :
    Alike trail trail' (first >>= next) (first' >>= next') := by
  intro scope
  rcases (h scope).cases with ⟨a, mid, hm, hm'⟩ | ⟨thread, hm, hm'⟩
  · rw [bind_of_returned hm, bind_of_returned hm']
    exact h' a mid
  · rw [bind_of_brokenOff hm, bind_of_brokenOff hm']
    exact .brokenOff thread

theorem Alike.map {m m' : Resolving α} (f : α → β) (h : Alike trail trail' m m') :
    Alike trail trail' (f <$> m) (f <$> m') :=
  h.bind fun a => alike_pure (f a)

theorem alike_record (error : ResolverError) :
    Alike trail trail' (record error) (record error) :=
  fun scope => .returned () (scope.record error)

theorem alike_failed (error : ResolverError) (label : String) :
    Alike trail trail' (failed error label) (failed error label) :=
  (alike_record error).bind fun _ => alike_pure _

theorem alike_ofOption (a : Option α) : Alike trail trail' (ofOption a) (ofOption a) := by
  cases a with
  | none => exact fun scope => .brokenOff scope.thread
  | some a => exact alike_pure a

/-- Where something is missing on both sides nothing follows. -/
theorem alike_missing {next next' : α → Resolving β} :
    Alike trail trail' (ofOption none >>= next) (ofOption none >>= next') :=
  fun scope => .brokenOff scope.thread

theorem alike_text (result : Resolved) : Alike trail trail' result.text result.text := by
  cases result with
  | value v => exact alike_ofOption _
  | placeholder label => exact alike_pure _

/-- The value of a variable does not depend on the trail. -/
theorem alike_variableValue (name : String) :
    Alike trail trail' (Level.variableValue name) (Level.variableValue name) := by
  have hvalue : Alike trail trail' (valueOf? name) (valueOf? name) := fun scope =>
    .returned (scope.visibleArgs.find? name) scope
  refine hvalue.bind fun found => ?_
  cases found with
  | none => exact alike_failed _ _
  | some v => exact alike_pure _

theorem Alike.withLocalArgs {args : Arguments} {body body' : Resolving α}
    (h : Alike trail trail' body body') :
    Alike trail trail' (withLocalArgs args body) (withLocalArgs args body') := by
  intro scope
  rw [withLocalArgs_eq, withLocalArgs_eq]
  exact (h { scope with localArgs := some args }).leaving fun after =>
    ⟨{ after with localArgs := scope.localArgs }, rfl, rfl⟩

/-- A place may go onto each trail. -/
theorem Alike.withPlace {place place' : Place} {body body' : Resolving α}
    (h : Alike (place :: trail) (place' :: trail') body body') :
    Alike trail trail' (withPlace place body) (withPlace place' body') := by
  intro scope
  rw [withPlace_eq, withPlace_eq]
  exact (h scope).leaving fun after => ⟨after, rfl, rfl⟩

theorem Alike.guarded {limit : Nat} {atLimit atLimit' body body' : Resolving α}
    (hl : Alike trail trail' atLimit atLimit') (h : Alike trail trail' body body') :
    Alike trail trail' (guarded limit atLimit body) (guarded limit atLimit' body') := by
  intro scope
  cases he : scope.thread.depth.enter? limit with
  | none =>
    have hfull : ∀ trail, (scope.onTrail trail).thread.depth.enter? limit = none := fun _ => he
    rw [guarded_of_full (hfull trail), guarded_of_full (hfull trail')]
    exact hl scope
  | some depth =>
    have hentered : ∀ trail, (scope.onTrail trail).thread.depth.enter? limit = some depth :=
      fun _ => he
    rw [guarded_of_entered (hentered trail), guarded_of_entered (hentered trail')]
    exact (h (scope.withDepth depth)).leaving fun after =>
      ⟨after.withDepth after.thread.depth.leave, rfl, rfl⟩

end Resolving

/-! ## Trails and places -/

/-- The patterns of the same entries lie on the trails, and with each place the pattern of its
entry. -/
structure TrailsAgree (trail trail' : List Place) : Prop where
  origins : ∀ o, o ∈ trailOrigins trail ↔ o ∈ trailOrigins trail'
  closed : ∀ place ∈ trail, place.origin ∈ trailOrigins trail
  closed' : ∀ place ∈ trail', place.origin ∈ trailOrigins trail'

/-- The places lie in the pattern of the same entry, and below all that is on their trails. -/
structure PlacesAgree (place : Place) (trail : List Place) (place' : Place) (trail' : List Place) :
    Prop where
  trails : TrailsAgree trail trail'
  origin : place'.origin = place.origin
  within : place.Within trail
  within' : place'.Within trail'

/-- Empty trails agree. -/
theorem trailsAgree_nil : TrailsAgree [] [] :=
  ⟨fun _ => .rfl, nofun, nofun⟩

/-- A place that goes onto the trail lies within it. -/
theorem Place.Within.cons {place : Place} {trail : List Place}
    (horigin : place.origin ∈ trailOrigins (place :: trail))
    (haround : ∀ other ∈ trail, other.origin = place.origin →
      other.path.length ≤ place.path.length) : place.Within (place :: trail) where
  origin := horigin
  around other hother hsame := by
    rcases List.mem_cons.1 hother with rfl | hother
    · exact Nat.le_refl _
    · exact haround other hother hsame

/-- With a place of an entry that is being resolved, a trail still has the whole pattern of each of
its places. -/
theorem closed_cons {place : Place} {trail : List Place}
    (h : ∀ other ∈ trail, other.origin ∈ trailOrigins trail)
    (horigin : place.origin ∈ trailOrigins (place :: trail)) :
    ∀ other ∈ place :: trail, other.origin ∈ trailOrigins (place :: trail) := by
  intro other hother
  rcases List.mem_cons.1 hother with rfl | hother
  · exact horigin
  · rw [trailOrigins_cons]
    split
    · exact List.mem_cons_of_mem _ (h other hother)
    · exact h other hother

/-- The pattern of an entry that is on neither trail goes onto both. -/
theorem TrailsAgree.entry {trail trail' : List Place} (h : TrailsAgree trail trail') {o : Origin}
    (hnew : o ∉ trailOrigins trail) :
    PlacesAgree ⟨o, []⟩ (⟨o, []⟩ :: trail) ⟨o, []⟩ (⟨o, []⟩ :: trail') := by
  have horigins : ∀ trail, trailOrigins (⟨o, []⟩ :: trail) = o :: trailOrigins trail := fun trail =>
    trailOrigins_cons ⟨o, []⟩ trail
  have hmem : ∀ trail, o ∈ trailOrigins (⟨o, []⟩ :: trail) := by simp [horigins]
  have hnew' : o ∉ trailOrigins trail' := fun ho => hnew ((h.origins o).2 ho)
  refine ⟨⟨fun other => ?_, closed_cons h.closed (hmem _), closed_cons h.closed' (hmem _)⟩, rfl,
    .cons (hmem _) ?_, .cons (hmem _) ?_⟩
  · rw [horigins, horigins, List.mem_cons, List.mem_cons, h.origins]
  · rintro other hother rfl
    exact absurd (h.closed other hother) hnew
  · rintro other hother rfl
    exact absurd (h.closed' other hother) hnew'

namespace PlacesAgree

variable {place place' : Place} {trail trail' : List Place}

/-- Places one step further down agree again. -/
theorem step (h : PlacesAgree place trail place' trail') (index index' : Nat) :
    PlacesAgree (place.step index) trail (place'.step index') trail' :=
  ⟨h.trails, h.origin, (h.within.step index).1, (h.within'.step index').1⟩

/-- The pattern of a variant is on neither trail, and goes onto both. -/
theorem variant (h : PlacesAgree place trail place' trail') (index index' : Nat) :
    PlacesAgree (place.step index) (place.step index :: trail) (place'.step index')
      (place'.step index' :: trail') := by
  have horigins : ∀ (place : Place) (index : Nat) (trail : List Place),
      trailOrigins (place.step index :: trail) = trailOrigins trail := fun place index trail =>
    trailOrigins_cons (place.step index) trail
  have hmem : ∀ {place : Place} {index : Nat} {trail : List Place}, place.Within trail →
      place.origin ∈ trailOrigins (place.step index :: trail) := fun hwithin => by
    rw [horigins]
    exact hwithin.origin
  refine ⟨⟨fun o => ?_, closed_cons h.trails.closed (hmem h.within),
    closed_cons h.trails.closed' (hmem h.within')⟩, h.origin, .cons (hmem h.within) ?_,
    .cons (hmem h.within') ?_⟩
  · rw [horigins, horigins, h.trails.origins]
  · exact (h.within.step index).1.around
  · exact (h.within'.step index').1.around

end PlacesAgree

end Fluent
