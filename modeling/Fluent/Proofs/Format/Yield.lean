/-
# Resolutions without problems

What a resolution returns depends on the values of variables, on the patterns that are being
resolved and on the depth.  For each step of resolving, the results that come without a new problem
are described in terms of the results of its parts.

* `Resolving.Yields` : in a setting the results without problems are exactly the given ones;
* `Resolving.yields_bind` : those of two resolutions in a row.
-/
import Fluent.Proofs.Format.Frame

namespace Fluent

/-- What resolutions look at: the values of variables, the places of the patterns that are being
resolved, and the depth. -/
structure Setting where
  vars : Arguments
  trail : List Place
  depth : Nat

namespace Setting

/-- One level deeper. -/
def deeper (s : Setting) : Setting :=
  { s with depth := s.depth + 1 }

/-- What fits below the limit one level deeper fits together with that level. -/
theorem deeper_fits {s : Setting} {limit : Nat} (n : Nat) :
    s.deeper.depth + n ≤ limit ↔ s.depth + (n + 1) ≤ limit := by
  show s.depth + 1 + n ≤ limit ↔ _
  omega

/-- While the pattern at a place is being resolved. -/
def inside (place : Place) (s : Setting) : Setting :=
  { s with trail := place :: s.trail }

/-- With only the given values of variables. -/
def withVars (vars : Arguments) (s : Setting) : Setting :=
  { s with vars := vars }

end Setting

/-- The setting that a scope is. -/
def Scope.setting (scope : Scope) : Setting :=
  ⟨scope.visibleArgs, scope.trail, scope.thread.depth.current⟩

/-- A scope that was kept has the same setting. -/
theorem Scope.Keeps.setting {a b : Scope} (h : a.Keeps b) : b.setting = a.setting := by
  rw [Scope.setting, Scope.setting, h.visibleArgs, h.trail, h.depth]

namespace Resolving

variable {α β : Type} {s : Setting}

/-- The resolution returns the result and adds no problem. -/
def Cleanly (m : Resolving α) (scope : Scope) (a : α) : Prop :=
  ∃ after, m scope = .returned a after ∧ after.errors = scope.errors

/-- The resolution keeps the scope; in the setting it returns the good results, and only these,
without adding a problem. -/
structure Yields (s : Setting) (m : Resolving α) (good : α → Prop) : Prop where
  frames : Frames m
  iff : ∀ scope : Scope, scope.setting = s → ∀ a, m.Cleanly scope a ↔ good a

/-- The same results are good under an equivalent description. -/
theorem Yields.congr {m : Resolving α} {P Q : α → Prop} (h : Yields s m P) (hpq : ∀ a, P a ↔ Q a) :
    Yields s m Q :=
  ⟨h.frames, fun scope hs a => (h.iff scope hs a).trans (hpq a)⟩

/-- A result is yielded, and no other. -/
theorem yields_pure (a : α) : Yields s (pure a) (a = ·) where
  frames := frames_pure a
  iff scope _ b := by
    constructor
    · rintro ⟨_, ⟨⟩, -⟩
      rfl
    · rintro rfl
      exact ⟨scope, rfl, rfl⟩

theorem yields_bind_of {first : Resolving α} {next : α → Resolving β} {P : α → Prop}
    {Q : α → β → Prop} (h : Yields s first P) (hframes : ∀ a, Frames (next a))
    (h' : ∀ a, P a → Yields s (next a) (Q a)) :
    Yields s (first >>= next) fun b => ∃ a, P a ∧ Q a b where
  frames := frames_bind h.frames hframes
  iff scope hs b := by
    constructor
    · rintro ⟨after, hafter, herrors⟩
      obtain ⟨a, mid, hfirst, hnext⟩ := bind_eq_returned.1 hafter
      -- problems only ever get more, so if there are none in the end, there were none in between
      have hkeeps := h.frames scope a mid hfirst
      obtain ⟨hmid, hrest⟩ := hkeeps.errors_eq (hframes a mid b after hnext) herrors
      have hp : P a := (h.iff scope hs a).1 ⟨mid, hfirst, hmid⟩
      have hset : mid.setting = s := hkeeps.setting.trans hs
      exact ⟨a, hp, ((h' a hp).iff mid hset b).1 ⟨after, hnext, hrest⟩⟩
    · rintro ⟨a, hp, hq⟩
      obtain ⟨mid, hfirst, hmid⟩ := (h.iff scope hs a).2 hp
      have hset : mid.setting = s := (h.frames scope a mid hfirst).setting.trans hs
      obtain ⟨after, hnext, hrest⟩ := ((h' a hp).iff mid hset b).2 hq
      exact ⟨after, bind_eq_returned.2 ⟨a, mid, hfirst, hnext⟩, hrest.trans hmid⟩

/-- Steps in a row yield what the second one yields for the results of the first. -/
theorem yields_bind {first : Resolving α} {next : α → Resolving β} {P : α → Prop}
    {Q : α → β → Prop} (h : Yields s first P) (h' : ∀ a, Yields s (next a) (Q a)) :
    Yields s (first >>= next) fun b => ∃ a, P a ∧ Q a b :=
  yields_bind_of h (fun a => (h' a).frames) fun a _ => h' a

/-- If only results of one form come without a problem, what follows others only has to keep the
scope. -/
theorem yields_bind_only {γ : Type} (form : γ → α) (hform : ∀ c c', form c = form c' → c = c')
    {first : Resolving α} {next : α → Resolving β} {P : γ → Prop} {Q : γ → β → Prop}
    (h : Yields s first fun a => ∃ c, P c ∧ form c = a)
    (hother : ∀ a, (∀ c, form c ≠ a) → Frames (next a)) (h' : ∀ c, Yields s (next (form c)) (Q c)) :
    Yields s (first >>= next) fun b => ∃ c, P c ∧ Q c b := by
  have hframes : ∀ a, Frames (next a) := by
    intro a
    by_cases ha : ∃ c, form c = a
    · obtain ⟨c, rfl⟩ := ha
      exact (h' c).frames
    · exact hother a fun c hc => ha ⟨c, hc⟩
  have hnext : ∀ a, (∃ c, P c ∧ form c = a) →
      Yields s (next a) fun b => ∃ c, form c = a ∧ Q c b := by
    rintro _ ⟨c, -, rfl⟩
    refine (h' c).congr fun b => ⟨fun hq => ⟨c, rfl, hq⟩, ?_⟩
    rintro ⟨c', hc', hq⟩
    exact hform c' c hc' ▸ hq
  refine (yields_bind_of h hframes hnext).congr fun b => ⟨?_, ?_⟩
  · rintro ⟨_, ⟨c, hp, rfl⟩, c', hc', hq⟩
    exact ⟨c, hp, hform c' c hc' ▸ hq⟩
  · rintro ⟨c, hp, hq⟩
    exact ⟨form c, ⟨c, hp, rfl⟩, c, rfl, hq⟩

/-- Mapped results are yielded. -/
theorem yields_map {m : Resolving α} {P : α → Prop} (f : α → β) (h : Yields s m P) :
    Yields s (f <$> m) fun b => ∃ a, P a ∧ f a = b :=
  yields_bind h fun a => yields_pure (f a)

/-- Recording a problem yields nothing, as it adds one. -/
theorem yields_record (error : ResolverError) : Yields s (record error) fun _ => False where
  frames := frames_record error
  iff scope _ a := by
    constructor
    · rintro ⟨_, ⟨⟩, herrors⟩
      exact List.cons_ne_self _ _ herrors
    · exact False.elim

/-- What records a problem first yields nothing. -/
theorem yields_record_bind (error : ResolverError) {next : Unit → Resolving β}
    (h : Frames (next ())) : Yields s (record error >>= next) fun _ => False :=
  have hbind := yields_bind_of (Q := fun _ _ => True) (yields_record error) (fun _ => h)
    fun _ => False.elim
  hbind.congr fun _ => ⟨fun ⟨_, hfalse, _⟩ => hfalse, False.elim⟩

/-- A placeholder always comes with a problem. -/
theorem yields_failed (error : ResolverError) (label : String) :
    Yields s (failed error label) fun _ => False :=
  yields_record_bind error (frames_pure _)

/-- What is there is yielded; breaking off yields nothing. -/
theorem yields_ofOption (a : Option α) : Yields s (ofOption a) (a = some ·) := by
  cases a with
  | none =>
    refine ⟨congruence_frames.breakOff, fun scope _ b => ⟨?_, nofun⟩⟩
    rintro ⟨_, ⟨⟩, -⟩
  | some a => exact (yields_pure a).congr fun b => Option.some_inj.symm

/-- Looking an argument up yields what the setting holds. -/
theorem yields_valueOf? (name : String) : Yields s (valueOf? name) (s.vars.find? name = ·) where
  frames := congruence_frames.valueOf? name
  iff scope hs value := by
    constructor
    · rintro ⟨_, ⟨⟩, -⟩
      rw [← hs]
      rfl
    · rintro rfl
      rw [← hs]
      exact ⟨scope, rfl, rfl⟩

/-- Asking for a place yields whether the trail of the setting holds it. -/
theorem yields_isOnTrail (place : Place) :
    Yields s (isOnTrail place) (decide (place ∈ s.trail) = ·) where
  frames := congruence_frames.isOnTrail place
  iff scope hs onTrail := by
    constructor
    · rintro ⟨_, ⟨⟩, -⟩
      rw [← hs]
      rfl
    · rintro rfl
      rw [← hs]
      exact ⟨scope, rfl, rfl⟩

/-! ## Resolutions inside another scope -/

/-- What is resolved in an inner scope is clean if it is clean there; leaving that scope does not
touch the problems. -/
theorem cleanly_leaving {m body : Resolving α} {scope inner : Scope} {f : Scope → Scope}
    {g : Thread → Thread} (hm : m scope = (body inner).leaving f g)
    (henter : inner.errors = scope.errors) (hleave : ∀ after, (f after).errors = after.errors)
    (a : α) : m.Cleanly scope a ↔ body.Cleanly inner a := by
  constructor
  · rintro ⟨outer, houter, herrors⟩
    rw [hm] at houter
    obtain ⟨after, hbody, rfl⟩ := Outcome.leaving_eq_returned.1 houter
    exact ⟨after, hbody, (hleave after).symm.trans (herrors.trans henter.symm)⟩
  · rintro ⟨after, hbody, herrors⟩
    refine ⟨f after, ?_, (hleave after).trans (herrors.trans henter)⟩
    rw [hm, Outcome.leaving_eq_returned]
    exact ⟨after, hbody, rfl⟩

/-- With arguments of its own a body yields what it does in the setting with these. -/
theorem yields_withLocalArgs (args : Arguments) {body : Resolving α} {P : α → Prop}
    (h : Yields (s.withVars args) body P) : Yields s (withLocalArgs args body) P where
  frames := frames_withLocalArgs args h.frames
  iff scope hs a := by
    have hinner := h.iff { scope with localArgs := some args } (by rw [← hs]; rfl) a
    rw [← hinner]
    exact cleanly_leaving (withLocalArgs_eq args body scope) rfl (fun _ => rfl) a

/-- Under a place a body yields what it does in the setting inside it. -/
theorem yields_withPlace (place : Place) {body : Resolving α} {P : α → Prop}
    (h : Yields (s.inside place) body P) : Yields s (withPlace place body) P where
  frames := frames_withPlace place h.frames
  iff scope hs a := by
    have hinner := h.iff { scope with trail := place :: scope.trail } (by rw [← hs]; rfl) a
    rw [← hinner]
    exact cleanly_leaving (withPlace_eq place body scope) rfl (fun _ => rfl) a

/-- Below the limit the body is resolved one level deeper. -/
theorem yields_guarded {limit : Nat} {atLimit body : Resolving α} {P : α → Prop}
    (hlimit : s.depth < limit) (hl : Frames atLimit)
    (h : Yields s.deeper body P) : Yields s (guarded limit atLimit body) P where
  frames := frames_guarded limit hl h.frames
  iff scope hs a := by
    have hcurrent : scope.thread.depth.current < limit := by
      rw [← hs] at hlimit
      exact hlimit
    obtain ⟨entered, hentered⟩ : ∃ entered, scope.thread.depth.enter? limit = some entered :=
      ⟨_, if_pos hcurrent⟩
    have hset : (scope.withDepth entered).setting = s.deeper := by
      rw [← hs, Scope.setting, Scope.withDepth, (Depth.enter?_eq_some_iff.1 hentered).2.1]
      rfl
    rw [← h.iff _ hset a]
    exact cleanly_leaving (guarded_of_entered hentered) rfl (fun _ => rfl) a

end Resolving

end Fluent
