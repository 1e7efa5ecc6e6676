/-
# The levels of parsed patterns

A pattern that was parsed takes at most one level more than it is nested, and it is nested no deeper
than the settings allow.

* `Entry.patterns` : the value and the attributes of an entry;
* `parse_levels_le`, `parse_nesting_le` : both bounds, for all patterns of a resource.
-/
import Fluent.Proofs.Grammar.Levels
import Fluent.Proofs.Resource.WellFormed

namespace Fluent

open Grammar

/-! ## The patterns of entries -/

/-- The patterns of an entry: its value, if it has one, and its attributes. -/
def Entry.patterns : Entry → List Pattern
  | .message m => m.value.toList ++ m.attributes.map (·.value)
  | .term t => t.value :: t.attributes.map (·.value)
  | .comment _ | .junk _ => []

/-- An entry is nested as deep as one of its patterns. -/
theorem Entry.nesting_le_iff {e : Entry} {n : Nat} :
    e.nesting ≤ n ↔ ∀ p ∈ e.patterns, Pattern.nesting p ≤ n := by
  cases e with
  | message m =>
    show m.nesting ≤ n ↔ _
    rw [Message.nesting_le_iff, Entry.patterns, List.forall_mem_append, List.forall_mem_map]
    simp only [Option.mem_toList]
  | term t =>
    show t.nesting ≤ n ↔ _
    rw [Term.nesting_le_iff, Entry.patterns, List.forall_mem_cons, List.forall_mem_map]
  | comment _ => simp [Entry.nesting, Entry.patterns]
  | junk _ => simp [Entry.nesting, Entry.patterns]

/-- Taking an attached comment off an entry leaves its patterns. -/
theorem Entry.patterns_of_parts {P : Pattern → Prop} {e : Entry}
    (h : ∀ part ∈ e.parts, ∀ p ∈ part.patterns, P p) : ∀ p ∈ e.patterns, P p := by
  cases e with
  | message m =>
    exact h (.message { m with comment := none })
      (List.mem_append_right _ (List.mem_singleton_self _))
  | term t =>
    exact h (.term { t with comment := none }) (List.mem_append_right _ (List.mem_singleton_self _))
  | comment _ => exact nofun
  | junk _ => exact nofun

/-- The patterns of an entry that can be read take one level more than they are nested. -/
theorem Grammar.EntryReadable.levels_le {deep : Nested} (hdeep : Affords deep) {e : Entry}
    (h : EntryReadable deep e) :
    ∀ p ∈ e.patterns, Pattern.levels p ≤ Pattern.nesting p + 1 := by
  have hattributes : ∀ {list : List Attribute}, (∀ a ∈ list, AttributeReadable deep a) →
      ∀ p ∈ list.map (·.value), Pattern.levels p ≤ Pattern.nesting p + 1 := by
    intro list hlist p hp
    obtain ⟨a, ha, rfl⟩ := List.mem_map.1 hp
    obtain ⟨fixed, hvalue⟩ := (hlist a ha).value
    exact hvalue.levels_le hdeep
  intro p hp
  cases e with
  | message m =>
    rcases List.mem_append.1 hp with hp | hp
    · obtain ⟨fixed, hvalue⟩ := h.value p (Option.mem_toList.1 hp)
      exact hvalue.levels_le hdeep
    · exact hattributes h.attributes p hp
  | term t =>
    rcases List.mem_cons.1 hp with rfl | hp
    · obtain ⟨fixed, hvalue⟩ := h.value
      exact hvalue.levels_le hdeep
    · exact hattributes h.attributes p hp
  | comment _ => cases hp
  | junk _ => exact h.elim

/-! ## The patterns of resources -/

section Resources

variable (settings : ParserSettings) (source : List Char)

/-- **A parsed pattern takes at most one level more than it is nested.** -/
theorem parse_levels_le : ∀ e ∈ (Resource.parse settings source).entries,
    ∀ p ∈ e.patterns, Pattern.levels p ≤ Pattern.nesting p + 1 :=
  parse_all settings (fun hclean h => (entry_ok h hclean).levels_le (affords_nested _ _))
    (fun _ => nofun) Entry.patterns_of_parts

/-- A parsed pattern is nested no deeper than is allowed. -/
theorem parse_nesting_le : ∀ e ∈ (Resource.parse settings source).entries,
    ∀ p ∈ e.patterns, Pattern.nesting p ≤ settings.maxNestingDepth := by
  refine parse_all settings (fun {c stop found} _ h => ?_) (fun _ => nofun) Entry.patterns_of_parts
  have hlimited := (nested_limited settings.maxNestingDepth settings.maxNestingDepth
    (Nat.le_refl settings.maxNestingDepth)).entry c
  rw [← Entry.nesting_le_iff]
  rcases hlimited with ⟨position, herror, -⟩ | ⟨-, hfits⟩
  · rw [herror] at h
    cases h
  · exact hfits found stop h

end Resources

end Fluent
