/-
# Format calls

A format call resolves a reference to the message that is asked for, in a scope of its own.  Its
moments are those that follow from there, and what it records is recorded at one of them.

* `Formatter.Reaches` : the moments of a format call;
* `Formatter.format_permits` : a call records and enters only what is permitted at its moments;
* `Formatter.exists_records`, `Formatter.mem_errors_of_records` : cycles and depths that are
  exceeded are recorded exactly if there is such a moment, unless the call breaks off.
-/
import Fluent.Proofs.Format.Permits
import Fluent.Proofs.Format.Trail

namespace Fluent

open Resolving

/-- At the moment the problem is recorded: a pattern comes up that is on the trail, or an expression
at the limit. -/
def Moment.Records (formatter : Formatter) (m : Moment) : ResolverError → Prop
  | .cyclic label => ∃ place p, m.task = .pattern place label p ∧ place ∈ m.scope.trail
  | .depthExceeded limit => limit = formatter.limit ∧
      ∃ place e, m.task = .expression place e ∧ limit ≤ m.scope.thread.depth.current
  | _ => False

/-- Cycles and depths that are exceeded. -/
def ResolverError.IsGuard : ResolverError → Prop
  | .cyclic _ | .depthExceeded _ => True
  | _ => False

namespace Formatter

variable (formatter : Formatter) (id : String) (attr : Option String) (args : Arguments)

/-- The moment at which a format call starts: nothing is being resolved yet. -/
def start : Moment where
  room := formatter.limit
  task := .expression ⟨.standalone, []⟩ (.message ⟨id⟩ (attr.map Identifier.mk))
  scope := { args := args }

/-- The moments of a format call. -/
def Reaches (m : Moment) : Prop :=
  Relation.ReflTransGen (Starts ⟨formatter, []⟩ formatter) (formatter.start id attr args) m

/-- A run starts at a moment that fits its formatter: nothing is on the trail. -/
theorem start_fits : (formatter.start id attr args).Fits formatter (.message id attr) where
  room := rfl
  nodup := List.nodup_nil
  closed := nofun
  path := .inl rfl
  stands := .inl ⟨_, _, rfl⟩
  mentions o ho := by
    have hattr : (attr.map Identifier.mk).map (·.name) = attr := by
      cases attr with
      | none => rfl
      | some name => rfl
    cases ho
    rw [hattr]
    rfl
  levels := Nat.le_refl 1

variable {formatter id attr args}

/-- Every moment of a call fits. -/
theorem Reaches.fits {m : Moment} (h : formatter.Reaches id attr args m) :
    m.Fits formatter (.message id attr) := by
  induction h with
  | refl => exact formatter.start_fits id attr args
  | tail _ hstep ih => exact hstep.fits ih

/-- What a call records and how deep it goes is permitted if it is at its moments. -/
theorem format_permits {ok : ResolverError → Prop} {bound : Nat} {good : Moment → Prop}
    (hplain : formatter.functions.IsPlain) (h : Permits ⟨formatter, []⟩ formatter ok bound good)
    (hstart : good (formatter.start id attr args)) :
    let result := Session.format ⟨formatter, []⟩ ⟨.message id attr, args⟩
    (∀ error ∈ result.1.errors, ok error) ∧ result.2.depth.peak ≤ bound := by
  intro result
  obtain ⟨herrors, hpeak⟩ : StaysWithin ok bound (Session.resolve ⟨formatter, []⟩ formatter.limit
      formatter ⟨.standalone, []⟩ (.message ⟨id⟩ (attr.map Identifier.mk)) >>= Resolved.text)
      { args := args } :=
    (h.resolve hplain formatter.limit _ _ _ hstart).bind fun r mid _ => staysWithin_text r mid
  have hresult : result = _ := formatter.session_format_eq id attr args (Nat.le_refl _)
  rw [hresult]
  have hfresh : max (0 : Nat) bound = bound := Nat.zero_max bound
  unfold contained
  split
  · rename_i text after hafter
    refine ⟨fun error herror => ?_, ?_⟩
    · rcases herrors _ _ hafter error (List.mem_reverse.1 herror) with hold | hok
      · cases hold
      · exact hok
    · rw [hafter] at hpeak
      exact hfresh ▸ hpeak
  · rename_i thread hthread
    refine ⟨fun error herror => ?_, ?_⟩
    · obtain rfl := List.mem_singleton.1 herror
      exact h.other _ (by simp) (by simp)
    · rw [hthread] at hpeak
      exact hfresh ▸ hpeak

/-- **A cycle, or a depth that is exceeded, is recorded at a moment of the call.** -/
theorem exists_records (hplain : formatter.functions.IsPlain) {error : ResolverError}
    (h : error ∈ (formatter.format id attr args).errors) (hguard : error.IsGuard) :
    ∃ m, formatter.Reaches id attr args m ∧ m.Records formatter error := by
  have hpermits : Permits ⟨formatter, []⟩ formatter
      (fun error => error.IsGuard →
        ∃ m, formatter.Reaches id attr args m ∧ m.Records formatter error)
      formatter.limit (formatter.Reaches id attr args) := by
    refine ⟨fun hm hstep => hm.tail hstep, fun {room place e scope} hm hrefused _ => ?_,
      fun hm henter => ?_, fun {room place label p scope} hm hon _ => ?_,
      fun error hcyclic hdepth hguard => ?_⟩
    · refine ⟨_, hm, rfl, place, e, rfl, ?_⟩
      -- without room the limit has been reached
      have hroom : room + scope.thread.depth.current = formatter.limit := hm.fits.room
      rcases hrefused with rfl | hnone
      · show formatter.limit ≤ scope.thread.depth.current
        omega
      · unfold Depth.enter? at hnone
        split at hnone
        · cases hnone
        · show formatter.limit ≤ scope.thread.depth.current
          omega
    · exact (Depth.enter?_eq_some_iff.1 henter).1
    · exact ⟨_, hm, place, p, rfl, hon⟩
    · cases error with
      | cyclic label => exact absurd rfl (hcyclic label)
      | depthExceeded limit => exact absurd rfl (hdepth limit)
      | _ => exact hguard.elim
  exact (format_permits hplain hpermits .refl).1 error h hguard

/-- What a moment records is among the problems with which its task returns. -/
theorem mem_errors_of_endsIn {session : Session} {m : Moment} {after : Scope}
    {error : ResolverError} (hm : m.EndsIn session formatter after) (h : m.Records formatter error) :
    error ∈ after.errors := by
  cases error with
  | cyclic label =>
    obtain ⟨place, p, htask, hon⟩ := h
    simp only [Moment.EndsIn, htask] at hm
    obtain ⟨text, htext⟩ := hm
    have htrail : isOnTrail place m.scope = .returned true m.scope := by simp [isOnTrail, hon]
    rw [Level.pattern, bind_of_returned htrail] at htext
    obtain ⟨_, _, ⟨⟩, ⟨⟩⟩ := bind_eq_returned.1 htext
    exact List.mem_cons_self
  | depthExceeded limit =>
    obtain ⟨rfl, place, e, htask, hlimit⟩ := h
    simp only [Moment.EndsIn, htask] at hm
    obtain ⟨r, hr⟩ := hm
    have hrefused : session.resolve m.room formatter place e m.scope =
        tooDeep formatter.limit m.scope := by
      cases m.room with
      | zero => rfl
      | succ room =>
        have hnone : m.scope.thread.depth.enter? formatter.limit = none := by
          rw [Depth.enter?, if_neg (Nat.not_lt_of_le hlimit)]
        rw [Session.resolve]
        exact guarded_of_full hnone
    rw [hrefused] at hr
    obtain ⟨_, _, ⟨⟩, ⟨⟩⟩ := bind_eq_returned.1 hr
    exact List.mem_cons_self
  | _ => exact h.elim

/-- Unless the call breaks off, a cycle or a depth that is exceeded at one of its moments is
recorded. -/
theorem mem_errors_of_records {m : Moment} {error : ResolverError}
    (hm : formatter.Reaches id attr args m) (h : m.Records formatter error) :
    (formatter.format id attr args).errors = [.internal (referenceLabel id attr)] ∨
      error ∈ (formatter.format id attr args).errors := by
  have hformat : formatter.format id attr args = _ :=
    congrArg Prod.fst (formatter.session_format_eq id attr args (Nat.le_refl _))
  rw [hformat]
  unfold contained
  split
  · rename_i text after hafter
    refine .inr (List.mem_reverse.2 ?_)
    obtain ⟨r, mid, hstart, htext⟩ := bind_eq_returned.1 hafter
    -- all that was started on the way to the moment returned
    have hends : ∃ inner, m.EndsIn ⟨formatter, []⟩ formatter inner ∧
        inner.errors <:+ mid.errors := by
      clear h
      induction hm with
      | refl => exact ⟨mid, ⟨r, hstart⟩, List.suffix_refl _⟩
      | tail _ hstep ih =>
        obtain ⟨outer, houter, hsuffix⟩ := ih
        obtain ⟨inner, hinner, hsuffix'⟩ := hstep.endsIn houter
        exact ⟨inner, hinner, hsuffix'.trans hsuffix⟩
    obtain ⟨inner, hinner, hsuffix⟩ := hends
    have hkept := (congruence_frames.text r _ _ _ htext).errors
    exact (hsuffix.trans hkept).subset (mem_errors_of_endsIn hinner h)
  · exact .inl rfl

end Formatter

end Fluent
