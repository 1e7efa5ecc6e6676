/-
# Depth

Resolutions that are running are counted, so that none is nested deeper than a limit.  The greatest
depth that there ever was is remembered.
-/

namespace Fluent

/-- How many resolutions are running, and the most that ever were. -/
structure Depth where
  current : Nat := 0
  peak : Nat := 0
deriving DecidableEq

namespace Depth

/-- One resolution more, unless that would exceed the limit. -/
def enter? (limit : Nat) (depth : Depth) : Option Depth :=
  if depth.current < limit then some ⟨depth.current + 1, max depth.peak (depth.current + 1)⟩
  else none

/-- One resolution less. -/
def leave (depth : Depth) : Depth :=
  { depth with current := depth.current - 1 }

/-- A level is entered exactly when the count is below the limit, and entering raises the count by
one and the peak with it. -/
theorem enter?_eq_some_iff {limit : Nat} {depth entered : Depth} :
    depth.enter? limit = some entered ↔
      depth.current < limit ∧ entered.current = depth.current + 1 ∧
        entered.peak = max depth.peak (depth.current + 1) := by
  unfold enter?
  split
  · rename_i h
    constructor
    · intro he
      obtain rfl := Option.some.inj he
      exact ⟨h, rfl, rfl⟩
    · rintro ⟨-, hc, hp⟩
      cases entered
      simp_all
  · rename_i h
    simp [h]

/-- Leaving undoes entering, apart from what is remembered. -/
theorem current_leave_of_enter? {limit : Nat} {depth entered : Depth}
    (h : depth.enter? limit = some entered) : entered.leave.current = depth.current := by
  have := (enter?_eq_some_iff.1 h).2.1
  simp [leave, this]

end Depth

end Fluent
