/-
# Resolutions that mirror each other

Two resolutions may do the same in the same order and end with results that are told of each other:
the second result is what a function makes of the first one, and all that is recorded is the same.

* `Resolving.Mirrors` : in a scope the second resolution ends as the first one does, but for its
  result;
* `Mirrors.bind`, `mirrors_guarded` : what is put together from such resolutions is so as well.
-/
import Fluent.Proofs.Format.Marks

namespace Fluent

open Resolving

/-! ## Resolutions that mirror each other -/

/-- The outcome with another result. -/
def Outcome.map {α β : Type} (f : α → β) : Outcome α → Outcome β
  | .returned a scope => .returned (f a) scope
  | .brokenOff thread => .brokenOff thread

/-- Leaving a body and mapping its result may be exchanged. -/
theorem Outcome.map_leaving {α β : Type} (h : α → β) (f : Scope → Scope) (g : Thread → Thread)
    (outcome : Outcome α) : (outcome.leaving f g).map h = (outcome.map h).leaving f g := by
  cases outcome <;> rfl

namespace Resolving

variable {α β γ δ : Type} {scope : Scope}

/-- In the scope the second resolution ends as the first one does, but with the result that `f`
makes of its result. -/
def Mirrors (f : α → β) (m : Resolving α) (m' : Resolving β) (scope : Scope) : Prop :=
  m' scope = (m scope).map f

/-- A result mirrors what the map makes of it. -/
theorem mirrors_pure {f : α → β} {a : α} {b : β} (h : f a = b) :
    Mirrors f (pure a) (pure b) scope :=
  congrArg (Outcome.returned · scope) h.symm

/-- Every resolution mirrors itself. -/
theorem mirrors_self (m : Resolving α) : Mirrors id m m scope := by
  unfold Mirrors
  cases m scope <;> rfl

/-- Steps in a row mirror each other; the second one is compared where the first one returns. -/
theorem Mirrors.bind {f : α → β} {g : γ → δ} {first : Resolving α} {first' : Resolving β}
    {next : α → Resolving γ} {next' : β → Resolving δ} (h : Mirrors f first first' scope)
    (h' : ∀ a mid, first scope = .returned a mid → Mirrors g (next a) (next' (f a)) mid) :
    Mirrors g (first >>= next) (first' >>= next') scope := by
  unfold Mirrors at h ⊢
  cases hfirst : first scope with
  | returned a mid =>
    rw [hfirst] at h
    rw [bind_of_returned hfirst, bind_of_returned h]
    exact h' a mid hfirst
  | brokenOff thread =>
    rw [hfirst] at h
    rw [bind_of_brokenOff hfirst, bind_of_brokenOff h]
    rfl

/-- Mapped results mirror each other if the maps fit together. -/
theorem Mirrors.map {f : α → β} {g : α → γ} {g' : β → δ} {k : γ → δ} {m : Resolving α}
    {m' : Resolving β} (h : Mirrors f m m' scope) (hg : ∀ a, k (g a) = g' (f a)) :
    Mirrors k (g <$> m) (g' <$> m') scope :=
  h.bind fun a _ _ => mirrors_pure (hg a)

/-- Breaking off is mirrored by breaking off. -/
theorem mirrors_ofOption (f : α → β) (a : Option α) :
    Mirrors f (ofOption a) (ofOption (a.map f)) scope := by
  cases a <;> rfl

/-- A placeholder without marks mirrors itself. -/
theorem mirrors_failed (error : ResolverError) {label : String} (h : Unmarked label.toList) :
    Mirrors Resolved.stripped (failed error label) (failed error label) scope :=
  (mirrors_self (record error)).bind fun _ _ _ =>
    mirrors_pure (congrArg Resolved.placeholder (stripped_eq_self h))

/-- A result without marks is written without marks. -/
theorem mirrors_text (result : Resolved) :
    Mirrors stripIsolates result.text result.stripped.text scope := by
  cases result with
  | value v =>
    show Mirrors stripIsolates (ofOption v.text?) (ofOption v.stripped.text?) scope
    rw [v.text?_stripped]
    exact mirrors_ofOption _ _
  | placeholder label =>
    refine mirrors_pure ?_
    rw [braced, braced, stripped, String.toList_ofList, stripIsolates_append]
    rfl

/-- Resolutions mirror each other if they leave bodies in the same way that do. -/
theorem Mirrors.leaving {f : α → β} {m body : Resolving α} {m' body' : Resolving β} {inner : Scope}
    {leave : Scope → Scope} {stop : Thread → Thread} (h : Mirrors f body body' inner)
    (hm : m scope = (body inner).leaving leave stop)
    (hm' : m' scope = (body' inner).leaving leave stop) : Mirrors f m m' scope := by
  unfold Mirrors at h ⊢
  rw [hm, hm', h, Outcome.map_leaving]

/-- Bodies with the same arguments of their own mirror each other. -/
theorem Mirrors.withLocalArgs {f : α → β} {args : Arguments} {body : Resolving α}
    {body' : Resolving β} (h : Mirrors f body body' { scope with localArgs := some args }) :
    Mirrors f (withLocalArgs args body) (withLocalArgs args body') scope :=
  h.leaving (withLocalArgs_eq args body scope) (withLocalArgs_eq args body' scope)

/-- Bodies under the same place mirror each other. -/
theorem Mirrors.withPlace {f : α → β} {place : Place} {body : Resolving α} {body' : Resolving β}
    (h : Mirrors f body body' { scope with trail := place :: scope.trail }) :
    Mirrors f (withPlace place body) (withPlace place body') scope :=
  h.leaving (withPlace_eq place body scope) (withPlace_eq place body' scope)

/-- Guarded bodies mirror each other if they do in the scope one level deeper. -/
theorem mirrors_guarded {f : α → β} {limit : Nat} {atLimit body : Resolving α}
    {atLimit' body' : Resolving β} (hl : Mirrors f atLimit atLimit' scope)
    (h : ∀ depth, scope.thread.depth.enter? limit = some depth →
      Mirrors f body body' (scope.withDepth depth)) :
    Mirrors f (guarded limit atLimit body) (guarded limit atLimit' body') scope := by
  cases he : scope.thread.depth.enter? limit with
  | none =>
    unfold Mirrors at hl ⊢
    rw [guarded_of_full he, guarded_of_full he, hl]
  | some depth => exact (h depth he).leaving (guarded_of_entered he) (guarded_of_entered he)

end Resolving

end Fluent
