/-
# Cycle detection

The trail finds every cycle of references, and nothing but cycles; and it alone keeps runs short.  A
pattern comes up a second time only if references lead from it back to it, and as long as none
does, the patterns on the trail share no expressions, so there is one level for each of them at
most.

* `Formatter.cycle_detection_exact` : what is on the trail, what is recorded, and how deep a call
  goes.
-/
import Fluent.Proofs.Format.FormatRun

namespace Fluent

namespace Formatter

variable {formatter : Formatter} {id : String} {attr : Option String} {args : Arguments}

/-- At no moment there are more levels than expressions. -/
theorem Reaches.depth_le {m : Moment} (h : formatter.Reaches id attr args m) :
    m.scope.thread.depth.current ≤ 1 + formatter.catalog.nodes := by
  have hlevels := h.fits.levels
  have hnodes := formatter.catalog.pathLevels_le_nodes (nodup_trailOrigins h.fits.nodup)
  omega

/-- When an expression takes a level, there is an expression left for it. -/
theorem Reaches.depth_lt {m : Moment} (h : formatter.Reaches id attr args m) {place : Place}
    {e : Expression} (hm : m.task = .expression place e) :
    m.scope.thread.depth.current < 1 + formatter.catalog.nodes := by
  have hlevel := h.fits.level_fits hm
  have hnodes := formatter.catalog.pathLevels_le_nodes (nodup_trailOrigins h.fits.nodup)
  omega

/-- No call takes more levels at once than there are expressions, and one for itself. -/
theorem peak_le_nodes (hplain : formatter.functions.IsPlain) :
    (Session.format ⟨formatter, []⟩ ⟨.message id attr, args⟩).2.depth.peak ≤
      1 + formatter.catalog.nodes := by
  have hpermits : Permits ⟨formatter, []⟩ formatter (fun _ => True) (1 + formatter.catalog.nodes)
      (formatter.Reaches id attr args) :=
    ⟨fun hm hstep => hm.tail hstep, fun _ _ => trivial, fun hm _ => hm.depth_lt rfl,
      fun _ _ => trivial, fun _ _ _ => trivial⟩
  exact (format_permits hplain hpermits .refl).2

/-- **Cycle detection is exact, and by itself enough for termination.**  At every moment each
pattern is on the trail once.  A cycle is recorded exactly if the pattern of an entry comes up while
it is on the trail, which a variant's pattern never does; so none is recorded if the references that
can be reached form no cycle.  Whatever the references are, no more levels are taken at once than
there are expressions, and one for the call itself. -/
theorem cycle_detection_exact (hplain : formatter.functions.IsPlain) (id : String)
    (attr : Option String) (args : Arguments) :
    let catalog := formatter.catalog
    let result := Session.format ⟨formatter, []⟩ ⟨.message id attr, args⟩
    (∀ m, formatter.Reaches id attr args m →
      m.scope.trail.Nodup ∧ m.scope.thread.depth.current ≤ 1 + catalog.nodes) ∧
    (∀ label, .cyclic label ∈ result.1.errors → ∃ m o p, formatter.Reaches id attr args m ∧
      m.task = .pattern ⟨o, []⟩ label p ∧ ⟨o, []⟩ ∈ m.scope.trail ∧
        catalog.patternOf? o = some p ∧ label = o.label) ∧
    (∀ m place label p, formatter.Reaches id attr args m → m.task = .pattern place label p →
      place ∈ m.scope.trail → place.path = [] ∧
        (result.1.errors = [.internal (referenceLabel id attr)] ∨ .cyclic label ∈ result.1.errors)) ∧
    ((∀ o, Relation.ReflTransGen catalog.Refers (.message id attr) o →
        ¬Relation.TransGen catalog.Refers o o) →
      ∀ label, .cyclic label ∉ result.1.errors) ∧
    result.2.depth.peak ≤ 1 + catalog.nodes ∧
    (1 + catalog.nodes ≤ formatter.limit → ∀ limit, .depthExceeded limit ∉ result.1.errors) := by
  intro catalog result
  have hrecorded := fun (label : String)
      (h : ResolverError.cyclic label ∈ (formatter.format id attr args).errors) =>
    exists_records hplain h trivial
  refine ⟨fun m hm => ⟨hm.fits.nodup, hm.depth_le⟩, fun label hlabel => ?_,
    fun m place label p hm htask hon => ⟨(hm.fits.cycle htask hon).1, ?_⟩,
    fun hacyclic label hlabel => ?_, peak_le_nodes hplain, fun hlimit limit hdeep => ?_⟩
  · obtain ⟨m, hm, place, p, htask, hon⟩ := hrecorded label hlabel
    obtain ⟨hpath, hp, horigin, -⟩ := hm.fits.cycle htask hon
    obtain ⟨o, path⟩ := place
    obtain rfl : path = [] := hpath
    exact ⟨m, o, p, hm, htask, hon, hp, horigin⟩
  · have hrecords : m.Records formatter (.cyclic label) := ⟨place, p, htask, hon⟩
    exact mem_errors_of_records hm hrecords
  · obtain ⟨m, hm, place, p, htask, hon⟩ := hrecorded label hlabel
    obtain ⟨-, -, -, hroot, hcycle⟩ := hm.fits.cycle htask hon
    exact hacyclic _ hroot hcycle
  · obtain ⟨m, hm, rfl, place, e, htask, hreached⟩ := exists_records hplain hdeep trivial
    exact absurd hlimit (Nat.not_le_of_lt (Nat.lt_of_le_of_lt hreached (hm.depth_lt htask)))

/-- Two messages that refer to each other, the second one in a variant. -/
def chaser : Formatter where
  catalog :=
    { messages := ⟨[("cat", ⟨⟨"cat"⟩, some [.placeable (.message ⟨"tail"⟩ none)], [], none⟩),
        ("tail", ⟨⟨"tail"⟩, some [.placeable (.select ⟨.var ⟨"mood"⟩,
          [⟨.identifier ⟨"calm"⟩, [.text "zzz"], false⟩,
            ⟨.identifier ⟨"other"⟩, [.placeable (.message ⟨"cat"⟩ none)], true⟩], 1⟩)], [], none⟩)]⟩
      terms := .empty }

/-- The cat comes to its own pattern again, at the fourth level; there are four expressions. -/
theorem cycle_detection_exact_chaser :
    chaser.functions.IsPlain ∧
      (chaser.format "cat").errors = [.unknownVariable "mood", .cyclic "cat"] ∧
      chaser.catalog.nodes = 4 ∧
      (Session.format ⟨chaser, []⟩ ⟨.message "cat" none, .empty⟩).2.depth.peak ≤ 5 := by
  have hplain : chaser.functions.IsPlain := FunctionTable.isPlain_builtins
  have hnodes : chaser.catalog.nodes = 4 := by decide +kernel
  have hpeak := (cycle_detection_exact hplain "cat" none .empty).2.2.2.2.1
  rw [hnodes] at hpeak
  exact ⟨hplain, by decide +kernel, hnodes, hpeak⟩

end Formatter

end Fluent
