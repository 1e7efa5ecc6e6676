/-
# Every byte is accounted for

Where nothing but nesting is limited, a source is cut into segments, and the entries of the resource
are made of these and nothing else.

* `parse_nestingOnly` : the resource is what the items of the source make;
* `parse_segments` : the segments, their order, and the junk among them.
-/
import Fluent.Proofs.Grammar.Limits
import Fluent.Proofs.Grammar.Braces
import Fluent.Proofs.Resource.Parts

namespace Fluent

open Grammar

/-- Settings that limit nothing but nesting. -/
def ParserSettings.nestingOnly (limit : Nat) : ParserSettings :=
  { maxNestingDepth := limit, maxParseErrors := 0, maxSourceSize := 0 }

/-- Without other limits a source becomes what its items make. -/
theorem parse_nestingOnly (limit : Nat) (source : List Char) :
    Resource.parse (.nestingOnly limit) source =
      ⟨attachComments (items (entryWithin limit) 0 (unifyLineEnds source))⟩ := by
  rw [Resource.parse, Resource.parseBy, if_neg fun h => h.1 rfl]
  rw [show ParserSettings.maxNestingDepth (.nestingOnly limit) = limit from rfl,
    Rule.ext_run (entryTwice_run limit)]
  rfl

/-- A source, with its line ends unified, is cut into segments, which are all that the resource is
made of.  They are not empty, lie in the text and come one after the other; and junk is the piece
of the text that its span tells. -/
theorem parse_segments (limit : Nat) (source : List Char) :
    let text := unifyLineEnds source
    let resource := Resource.parse (.nestingOnly limit) source
    ∃ list : List Item,
      Segmented (nested limit limit) (utf8Length text) [] text list ∧
      resource.entries.flatMap Entry.parts = list.map Item.entry ∧
      (∀ item ∈ list, item.start < item.stop ∧ item.stop ≤ utf8Length text) ∧
      (list.Pairwise fun first next => first.stop ≤ next.start) ∧
      (∀ junk ∈ resource.junk, junk.span.start < junk.span.stop ∧
        junk.content = String.ofList (sliceBytes junk.span.start junk.span.stop text)) ∧
      resource.junk.Pairwise fun first next => first.span.stop ≤ next.span.start := by
  intro text resource
  have hres : resource = ⟨attachComments (items (entryWithin limit) 0 text)⟩ :=
    parse_nestingOnly limit source
  have hseg := segmented_items (nested limit limit) text
  obtain ⟨hbounds, hpair⟩ := hseg.bounds
  have hparts : resource.entries.flatMap Entry.parts =
      (items (entryWithin limit) 0 text).map Item.entry := by
    rw [hres]
    exact attachComments_parts hseg.parts
  have hjunk : resource.junk =
      (items (entryWithin limit) 0 text).filterMap fun item => item.entry.junk? := by
    rw [junk_eq resource.entries, ← filterMap_junk_parts, hparts, List.filterMap_map]
    rfl
  -- the items tell their places, and junk tells those of its item
  have hspan : ∀ item ∈ items (entryWithin limit) 0 text, ∀ junk, item.entry.junk? = some junk →
      junk.span = ⟨item.start, item.stop⟩ ∧
        junk.content = String.ofList (sliceBytes item.start item.stop text) :=
    fun item hitem junk h => hseg.junk_eq item hitem junk (Entry.junk?_eq_some_iff.1 h)
  refine ⟨_, hseg, hparts, fun item hitem => (hbounds item hitem).2, hpair, ?_, ?_⟩
  · intro junk hmem
    rw [hjunk] at hmem
    obtain ⟨item, hitem, hentry⟩ := List.mem_filterMap.1 hmem
    obtain ⟨hs, hc⟩ := hspan item hitem junk hentry
    rw [hs]
    exact ⟨(hbounds item hitem).2.1, hc⟩
  · rw [hjunk, List.pairwise_filterMap]
    refine hpair.imp_of_mem fun {first next} hfirst hnext hle junk hj junk' hj' => ?_
    rw [(hspan first hfirst junk hj).1, (hspan next hnext junk' hj').1]
    exact hle

end Fluent
