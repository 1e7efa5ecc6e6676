/-
# What the limit on nesting decides

The limit on nesting is exact: an entry is read under a limit if and only if it is read where enough
levels are allowed, and is nested no deeper than the limit.  All other answers are the same under
every limit, so that trying a small one first is never seen.

* `entry_within_iff` : which entries are read under a limit, and how the others are refused;
* `parse_eq_parsePlainly` : a source is read as if the full limit had been used at once.
-/
import Fluent.Proofs.Grammar.Limits
import Fluent.Resource.Parse

namespace Fluent

open Grammar

/-! ## Entries -/

/-- The entry that starts at the cursor and ends at `stop` is read under every limit on nesting
that is large enough. -/
def IsEntryAt (c : Cursor) (found : Entry) (stop : Cursor) : Prop :=
  ∃ enough, ∀ limit, enough ≤ limit → entry (nested limit limit) c = .ok (found, stop)

/-- Under a limit, an entry is read if and only if it is one and nested no deeper; one that is
nested deeper is refused because of the limit. -/
theorem entry_within_iff (limit : Nat) (c : Cursor) (found : Entry) (stop : Cursor) :
    (entry (nested limit limit) c = .ok (found, stop) ↔
      IsEntryAt c found stop ∧ found.nesting ≤ limit) ∧
    (IsEntryAt c found stop → limit < found.nesting →
      ∃ position, entry (nested limit limit) c = .error ⟨position, .nestedTooDeep limit, []⟩) := by
  refine ⟨⟨fun hread => ?_, fun ⟨⟨enough, hlarge⟩, hfits⟩ => ?_⟩,
    fun ⟨enough, hlarge⟩ hdeep => ?_⟩
  · -- what is read under one limit is read under all that are larger
    have hlarger : ∀ larger, limit ≤ larger →
        entry (nested larger larger) c = .ok (found, stop) ∧ found.nesting ≤ limit := by
      intro larger hle
      rcases (nested_limited limit larger hle).entry c with ⟨position, herror, -⟩ | ⟨heq, hfits⟩
      · rw [herror] at hread
        cases hread
      · have hlarge : entry (nested larger larger) c = .ok (found, stop) := heq ▸ hread
        exact ⟨hlarge, hfits found stop hlarge⟩
    exact ⟨⟨limit, fun larger hle => (hlarger larger hle).1⟩, (hlarger limit (Nat.le_refl _)).2⟩
  · have hlarge := hlarge (max limit enough) (Nat.le_max_right ..)
    rcases (nested_limited limit _ (Nat.le_max_left limit enough)).entry c with
      ⟨position, -, hdeep⟩ | ⟨heq, -⟩
    · exact absurd hfits (hdeep found stop hlarge)
    · exact heq ▸ hlarge
  · have hlarge := hlarge (max limit enough) (Nat.le_max_right ..)
    rcases (nested_limited limit _ (Nat.le_max_left limit enough)).entry c with
      ⟨position, herror, -⟩ | ⟨-, hfits⟩
    · exact ⟨position, herror⟩
    · exact absurd (hfits found stop hlarge) (Nat.not_le_of_lt hdeep)

/-- A message with a call in a placeable in a placeable: three levels, though the call has no
arguments. -/
def nestedCall : Cursor :=
  .ofText "a = \x7b\x7b F() \x7d\x7d".toList

theorem entry_within_nestedCall :
    ∃ found stop, IsEntryAt nestedCall found stop ∧ found.nesting = 3 ∧
      ∃ position, entry (nested 2 2) nestedCall = .error ⟨position, .nestedTooDeep 2, []⟩ := by
  have hread : (entry (nested 3 3) nestedCall).toOption.map (fun read => read.1.nesting) =
      some 3 := by
    decide +kernel
  cases h : entry (nested 3 3) nestedCall with
  | error failure =>
    rw [h] at hread
    cases hread
  | ok read =>
    obtain ⟨found, stop⟩ := read
    rw [h] at hread
    have hnesting : found.nesting = 3 := Option.some.inj hread
    have hentry := ((entry_within_iff 3 nestedCall found stop).1.1 h).1
    exact ⟨found, stop, hentry, hnesting,
      (entry_within_iff 2 nestedCall found stop).2 hentry (by omega)⟩

/-! ## Resources -/

/-- A source is read as if each entry had been read once, under the full limit.  Of two limits the
smaller one refuses because of its size, or answers, and fails, like the larger one. -/
theorem parse_eq_parsePlainly :
    (∀ (settings : ParserSettings) (source : List Char),
      Resource.parse settings source = Resource.parsePlainly settings source) ∧
    ∀ limit larger, limit ≤ larger → ∀ c,
      (∃ position, entry (nested limit limit) c = .error ⟨position, .nestedTooDeep limit, []⟩) ∨
        entry (nested limit limit) c = entry (nested larger larger) c := by
  refine ⟨fun settings source => ?_, fun limit larger hle c => ?_⟩
  · rw [Resource.parse, Resource.parsePlainly, Rule.ext_run (entryTwice_run _)]
  · rcases (nested_limited limit larger hle).entry c with ⟨position, herror, -⟩ | ⟨heq, -⟩
    · exact .inl ⟨position, herror⟩
    · exact .inr heq

theorem parse_eq_parsePlainly_nestedCall :
    2 ≤ 3 ∧
      ∃ position, entry (nested 2 2) nestedCall = .error ⟨position, .nestedTooDeep 2, []⟩ := by
  refine ⟨by decide, ?_⟩
  rcases parse_eq_parsePlainly.2 2 3 (by decide) nestedCall with hrefused | heq
  · exact hrefused
  · have hread : (entry (nested 2 2) nestedCall).toOption.isSome ≠
        (entry (nested 3 3) nestedCall).toOption.isSome := by
      decide +kernel
    exact absurd (congrArg (fun answer => answer.toOption.isSome) heq) hread

end Fluent
