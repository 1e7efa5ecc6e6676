/-
# The depth guard

The depth of a thread counts the resolutions that are running, and its peak is the greatest count
that there ever was.  Every step that changes the count keeps the peak above it, so what is said of
the peak after a run is said of every moment of the run.

Functions may ask for texts themselves, and these are counted on from where the function is called.
That no call-back starts lower is seen from what it can reach: a formatter whose limit the count has
reached answers nothing but that, and might as well be another one with the same limit.

* `Depth.Tracked` : the count is at most the peak; entering and leaving keep this;
* `Session.AgreesAbove` : sessions that differ only in formatters whose limit has been reached;
* `Session.AgreesAbove.formatAt_eq` : no text tells them apart;
* `Session.depth_restored_and_bounded` : a text that is asked for, by whomever and wherever, leaves
  the count as it was and is counted on from there, and a whole run never counts more than the
  greatest limit in use.
-/
import Fluent.Proofs.Format.Room
import Fluent.Resource.Parse

namespace Fluent

/-! ## The peak -/

/-- The peak is the greatest count so far, the present one included. -/
def Depth.Tracked (depth : Depth) : Prop :=
  depth.current ≤ depth.peak

namespace Depth

/-- The count starts at its peak. -/
theorem tracked_start : ({} : Depth).Tracked :=
  Nat.le_refl 0

/-- One resolution more is seen by the peak. -/
theorem tracked_enter? {limit : Nat} {depth entered : Depth}
    (h : depth.enter? limit = some entered) : entered.Tracked := by
  obtain ⟨-, hc, hp⟩ := enter?_eq_some_iff.1 h
  unfold Tracked
  rw [hc, hp]
  exact Nat.le_max_right ..

/-- Leaving a level keeps the peak above the count. -/
theorem Tracked.leave {depth : Depth} (h : depth.Tracked) : depth.leave.Tracked := by
  unfold Tracked Depth.leave at *
  dsimp only
  omega

end Depth

/-- What balances the depth keeps track of it. -/
theorem Thread.Balances.tracked {limit : Nat} {before after : Thread}
    (h : before.Balances limit after) (ht : before.depth.Tracked) : after.depth.Tracked := by
  obtain ⟨hc, hm, -⟩ := h
  unfold Depth.Tracked at *
  omega

namespace Session

open Resolving

/-! ## Call-backs -/

/-- A formatter that is asked where the count has reached its limit answers that it is too deep. -/
theorem formatAt_of_limit_le (session : Session) (room : Nat) {formatter : Formatter}
    (request : Request) {thread : Thread} (h : formatter.limit ≤ thread.depth.current) :
    session.formatAt room formatter request thread =
      (⟨braced depthLabel, [.depthExceeded formatter.limit]⟩, thread) := by
  rw [session.formatAt_tooDeep h room request rfl]
  rfl

/-- At each place the sessions have the same formatter, or two with one limit that is not above the
count. -/
def AgreesAbove (count : Nat) (session session' : Session) : Prop :=
  ∀ place, session'.formatter place = session.formatter place ∨
    (session'.formatter place).limit = (session.formatter place).limit ∧
      (session.formatter place).limit ≤ count

section Exchange

variable {session session' : Session}

/-- Sessions that agree above a count agree above a larger one. -/
theorem AgreesAbove.mono {count count' : Nat} (hle : count ≤ count')
    (h : session.AgreesAbove count session') : session.AgreesAbove count' session' :=
  fun place => (h place).imp_right fun ⟨hlimit, hcount⟩ => ⟨hlimit, Nat.le_trans hcount hle⟩

/-- A level asks one count above the one that it was entered at, and there the formatters that
differ answer the same. -/
theorem AgreesAbove.askAgrees {room depth : Nat} (h : session.AgreesAbove depth session')
    (hformat : ∀ formatter ∈ session.formatters, ∀ request (thread : Thread),
      thread.depth.current = depth →
        session.formatAt room formatter request thread =
          session'.formatAt room formatter request thread) :
    AskAgrees depth (fun n => session.formatAt room (session.formatter n))
      (fun n => session'.formatAt room (session'.formatter n)) := by
  intro place request thread hd
  have hmem := session.formatter_mem place
  refine ⟨?_, (session.balances_formatAt room hmem request thread).1.trans hd⟩
  rcases h place with hsame | ⟨hlimit, hcount⟩
  · dsimp only
    rw [hsame]
    exact hformat _ hmem request thread hd
  · have hle : (session.formatter place).limit ≤ thread.depth.current := hd ▸ hcount
    dsimp only
    rw [formatAt_of_limit_le session room request hle,
      formatAt_of_limit_le session' room request (hlimit ▸ hle), hlimit]

/-- Below formatters that have reached their limit nothing is resolved that tells them apart. -/
theorem AgreesAbove.agree_at {room depth : Nat} (h : session.AgreesAbove (depth + 1) session') :
    (∀ formatter ∈ session.formatters, ∀ place e, AgreeAt depth
      (session.resolve room formatter place e) (session'.resolve room formatter place e)) ∧
    (∀ formatter ∈ session.formatters, ∀ request (thread : Thread),
      thread.depth.current = depth →
        session.formatAt room formatter request thread =
          session'.formatAt room formatter request thread) := by
  -- the induction is on the room, since what a level resolves and asks for has less of it
  induction room generalizing depth with
  | zero =>
    exact ⟨fun formatter _ place e => (balanced_tooDeep _).agree,
      fun formatter _ request thread _ => rfl⟩
  | succ room ih =>
    obtain ⟨hresolve, hformat⟩ := ih (h.mono (Nat.le_succ _))
    have hsteps := congruence_agree (depth + 1)
    have hask := h.askAgrees hformat
    have hlevel : ∀ formatter ∈ session.formatters, (session.level room formatter).Related
        (fun m m' => AgreeAt (depth + 1) m m') (session'.level room formatter) :=
      fun formatter hf => ⟨rfl, hresolve formatter hf, fun call _ => agree_level_run hask call⟩
    refine ⟨fun formatter hf place e => ?_, fun formatter hf request thread hd => ?_⟩
    · exact agree_guarded (balanced_tooDeep _) ((hlevel formatter hf).expression hsteps _ _)
    · exact contained_agree _ _
        (agree_guarded (balanced_tooDeep _) ((hlevel formatter hf).target hsteps _)) hd

/-- **A call-back is counted on from its call**: formatters whose limit is not above the count that
a run takes next are not told apart by any text that is asked for in the run. -/
theorem AgreesAbove.formatAt_eq {room : Nat} {formatter : Formatter}
    (hf : formatter ∈ session.formatters) (request : Request) {thread : Thread}
    (h : session.AgreesAbove (thread.depth.current + 1) session') :
    session'.formatAt room formatter request thread =
      session.formatAt room formatter request thread :=
  (h.agree_at.2 formatter hf request thread rfl).symm

end Exchange

/-! ## Whole runs -/

/-- A text that is asked for leaves the count as it was, whichever formatter is asked and however
its resolution ends.  The peak keeps track of the count all the way, and a run that starts at depth
zero never exceeds the greatest limit in use.

Nor is the count ever reset on the way: a formatter that is asked where the count has reached its
limit only answers that it is too deep, and so nothing in a run depends on what the formatters are
whose limit is not above the count that the run takes. -/
theorem depth_restored_and_bounded (session : Session) :
    (∀ room place request (thread : Thread),
      let after := (session.formatAt room (session.formatter place) request thread).2
      after.depth.current = thread.depth.current ∧
        (thread.depth.Tracked → after.depth.Tracked) ∧
        thread.depth.peak ≤ after.depth.peak ∧
        after.depth.peak ≤ max thread.depth.peak session.limit) ∧
    (∀ request errors,
      let after := (session.format request { callErrors := errors }).2
      after.depth.current = 0 ∧ after.depth.peak ≤ session.limit) ∧
    (∀ room place request (thread : Thread),
      (session.formatter place).limit ≤ thread.depth.current →
        session.formatAt room (session.formatter place) request thread =
          (⟨braced depthLabel, [.depthExceeded (session.formatter place).limit]⟩, thread)) ∧
    (∀ session' room place request (thread : Thread),
      session.AgreesAbove (thread.depth.current + 1) session' →
        session'.formatAt room (session.formatter place) request thread =
          session.formatAt room (session.formatter place) request thread) := by
  refine ⟨?_, ?_, ?_, ?_⟩
  · intro room place request thread
    have h := session.balances_formatAt room (session.formatter_mem place) request thread
    exact ⟨h.1, h.tracked, h.2⟩
  · intro request errors
    have h := session.balances_formatAt (session.limit - 0) List.mem_cons_self request
      { callErrors := errors }
    obtain ⟨hc, -, hp⟩ := h
    -- a fresh thread has no peak of its own
    refine ⟨hc, Nat.le_trans hp ?_⟩
    exact Nat.max_le.2 ⟨Nat.zero_le _, Nat.le_refl _⟩
  · intro room place request thread hle
    exact session.formatAt_of_limit_le room request hle
  · intro session' room place request thread h
    exact h.formatAt_eq (session.formatter_mem place) request

/-- A message that calls a function, and one with a text. -/
def callCatalog : Catalog :=
  (Catalog.empty.add (Resource.parse {} "m = \x7b AGAIN() \x7d\nn = x\n".toList)).1

/-- The function has the other formatter format the text, which may take one level only. -/
def calling (catalog : Catalog) : Session where
  main :=
    { catalog := callCatalog
      functions := FunctionTable.empty.register "AGAIN" fun _ _ =>
        .format 1 ⟨.message "n" none, .empty⟩ fun formatted =>
          .value (.string (String.ofList formatted.text)) }
  others := [{ catalog := catalog, settings := { maxExpressionDepth := 1 } }]

/-- The other formatter has the text when it is asked first.  Asked by the function it has none,
for two levels are taken there; it might as well know no message at all. -/
theorem depth_restored_and_bounded_calling :
    let asked : Thread := { depth := ⟨2, 2⟩ }
    let request : Request := ⟨.message "m" none, .empty⟩
    ((calling callCatalog).formatter 1).limit ≤ asked.depth.current ∧
      (calling callCatalog).AgreesAbove 1 (calling .empty) ∧
      ((calling callCatalog).formatAt 1 ((calling callCatalog).formatter 1)
        ⟨.message "n" none, .empty⟩ {}).1.text = ['x'] ∧
      (calling callCatalog).formatAt 1 ((calling callCatalog).formatter 1)
        ⟨.message "n" none, .empty⟩ asked =
          (⟨braced depthLabel, [.depthExceeded 1]⟩, asked) ∧
      (calling .empty).formatAt 3 ((calling callCatalog).formatter 0) request {} =
        (calling callCatalog).formatAt 3 ((calling callCatalog).formatter 0) request {} := by
  intro asked request
  have hlimit : ((calling callCatalog).formatter 1).limit ≤ asked.depth.current := by decide
  have hagrees : (calling callCatalog).AgreesAbove 1 (calling .empty) := by
    intro place
    match place with
    | 0 => exact .inl rfl
    | 1 => exact .inr ⟨rfl, Nat.le_refl 1⟩
    | _ + 2 => exact .inl rfl
  obtain ⟨-, -, htooDeep, hexchange⟩ := (calling callCatalog).depth_restored_and_bounded
  exact ⟨hlimit, hagrees, by decide +kernel, htooDeep 1 1 _ asked hlimit,
    hexchange (calling .empty) 3 0 request {} hagrees⟩

end Session

end Fluent
