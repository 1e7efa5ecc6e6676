/-
# The trail of a run

The patterns that are being resolved lie on the trail, each of them once.  Those of entries lead
from the one that is formatted to the present one by references, so a pattern that comes up again
lies on a cycle of references; and the levels that are taken fit into the patterns on the trail.

* `Moment.Fits` : what holds at every moment;
* `Starts.fits` : it goes on to hold;
* `Moment.Fits.level_fits`, `Moment.Fits.cycle` : what follows for depths and for cycles.
-/
import Fluent.Proofs.Format.Moments
import Fluent.Proofs.Format.References

namespace Fluent

open Resolving

/-! ## References and trails -/

/-- The origins of the patterns of entries on a trail, without those of variants. -/
def trailOrigins (trail : List Place) : List Origin :=
  trail.filterMap fun place => if place.path = [] then some place.origin else none

/-- An entry is being resolved exactly when the place of its whole pattern is on the trail. -/
theorem mem_trailOrigins {trail : List Place} {o : Origin} :
    o ∈ trailOrigins trail ↔ ⟨o, []⟩ ∈ trail := by
  unfold trailOrigins
  rw [List.mem_filterMap]
  constructor
  · rintro ⟨⟨o', path⟩, hplace, h⟩
    simp only [Option.ite_none_right_eq_some, Option.some.injEq] at h
    obtain ⟨rfl, rfl⟩ := h
    exact hplace
  · intro h
    exact ⟨_, h, by simp⟩

/-- Only the place of a whole pattern adds an entry to those being resolved. -/
theorem trailOrigins_cons (place : Place) (trail : List Place) :
    trailOrigins (place :: trail) =
      if place.path = [] then place.origin :: trailOrigins trail else trailOrigins trail := by
  unfold trailOrigins
  rw [List.filterMap_cons]
  split
  · rename_i h
    simp_all
  · rename_i o h
    simp_all

/-- On a trail without repetition no entry is being resolved twice. -/
theorem nodup_trailOrigins {trail : List Place} (h : trail.Nodup) : (trailOrigins trail).Nodup := by
  refine List.Nodup.filterMap (fun place place' o ho ho' => ?_) h
  obtain ⟨origin, path⟩ := place
  obtain ⟨origin', path'⟩ := place'
  simp only [Option.mem_def, Option.ite_none_right_eq_some, Option.some.injEq] at ho ho'
  obtain ⟨rfl, rfl⟩ := ho
  obtain ⟨rfl, rfl⟩ := ho'
  rfl

/-- The label under which a pattern is reported. -/
def Origin.label : Origin → String
  | .message id attr => referenceLabel id attr
  | .term id attr => "-" ++ referenceLabel id attr
  | .standalone => "pattern"

/-- What may be referred to next: from the last pattern on a path, or the root if there is none. -/
def Catalog.Continues (catalog : Catalog) (root : Origin) : List Origin → Origin → Prop
  | [], o => o = root
  | last :: _, o => catalog.Refers last o

/-- A path of references that may be empty. -/
def IsPath (catalog : Catalog) (root : Origin) (path : List Origin) : Prop :=
  path = [] ∨ ReferencePath catalog root path

/-! ## Tasks in their patterns -/

namespace Task

/-- The task may come to a reference to the origin. -/
def Mentions : Task → Origin → Prop
  | .expression _ e, o => e.Mentions o
  | .pattern place _ p, o => if place.path = [] then o = place.origin else Pattern.Mentions p o
  | .elements _ _ _ list, o => Pattern.Mentions list o
  | .arguments _ _ list, o => ∃ e ∈ list, e.Mentions o

/-- The levels that the task takes; those of the pattern of an entry count when it is on the
trail. -/
def levels : Task → Nat
  | .expression _ e => e.levels
  | .pattern place _ p => if place.path = [] then 0 else Pattern.levels p
  | .elements _ _ _ list => Pattern.levels list
  | .arguments _ _ list => argumentsLevels list

end Task

/-- The place lies in a pattern of an entry on the trail, and no deeper in that pattern is any place
on the trail. -/
structure Place.Within (place : Place) (trail : List Place) : Prop where
  origin : place.origin ∈ trailOrigins trail
  around : ∀ other ∈ trail, other.origin = place.origin → other.path.length ≤ place.path.length

/-- Where the task stands.  Only the message that is asked for stands in no pattern; the pattern of
an entry is that of its origin, and the pattern of a variant is not on the trail. -/
def Task.StandsIn (catalog : Catalog) (trail : List Place) : Task → Prop
  | .expression place e => (∃ id attr, e = .message id attr) ∨ place.Within trail
  | .pattern place label p =>
    if place.path = [] then catalog.patternOf? place.origin = some p ∧ label = place.origin.label
    else place.Within trail ∧ place ∉ trail
  | .elements _ place _ _ | .arguments place _ _ => place.Within trail

/-- What holds at every moment of a run that formats the pattern of the root. -/
structure Moment.Fits (formatter : Formatter) (root : Origin) (m : Moment) : Prop where
  room : m.room + m.scope.thread.depth.current = formatter.limit
  nodup : m.scope.trail.Nodup
  closed : ∀ place ∈ m.scope.trail, place.origin ∈ trailOrigins m.scope.trail
  path : IsPath formatter.catalog root (trailOrigins m.scope.trail)
  stands : m.task.StandsIn formatter.catalog m.scope.trail
  mentions : ∀ o, m.task.Mentions o →
    formatter.catalog.Continues root (trailOrigins m.scope.trail) o
  levels : m.scope.thread.depth.current + m.task.levels ≤
    1 + formatter.catalog.pathLevels (trailOrigins m.scope.trail)

/-! ## From one moment to the next -/

/-- Braces around an expression take no levels. -/
theorem Expression.levels_peeled (e : Expression) : e.peeled.levels = e.levels := by
  induction e using Expression.peeled.induct with
  | case1 inner ih => exact ih
  | case2 e he =>
    rw [Expression.peeled]
    exact he

/-- What is mentioned inside of placeables is mentioned. -/
theorem Expression.Mentions.of_peeled {e : Expression} {o : Origin} (h : e.peeled.Mentions o) :
    e.Mentions o := by
  induction e using Expression.peeled.induct with
  | case1 inner ih => exact .placeable (ih h)
  | case2 e he =>
    rw [Expression.peeled] at h
    · exact h
    · exact he

/-- One step further down is still in the same pattern, and below all that is on the trail. -/
theorem Place.Within.step {place : Place} {trail : List Place} (h : place.Within trail)
    (index : Nat) : (place.step index).Within trail ∧ place.step index ∉ trail := by
  refine ⟨⟨h.origin, fun other hother hsame => ?_⟩, fun hon => ?_⟩
  · exact Nat.le_succ_of_le (h.around other hother hsame)
  · exact absurd (h.around _ hon rfl) (Nat.not_succ_le_self _)

/-- An expression that is no reference to a message stands in a pattern on the trail. -/
theorem Task.StandsIn.within {catalog : Catalog} {trail : List Place} {place : Place}
    {e : Expression} (h : Task.StandsIn catalog trail (.expression place e))
    (he : ∀ id attr, e.peeled ≠ .message id attr) : place.Within trail := by
  rcases h with ⟨id, attr, rfl⟩ | h
  · exact absurd rfl (he id attr)
  · exact h

namespace Moment.Fits

variable {formatter : Formatter} {root : Origin} {m next : Moment}

/-- On the same trail it is left to see where the next task stands, that it mentions and takes no
more than the one before. -/
theorem follow (h : m.Fits formatter root) (htrail : next.scope.trail = m.scope.trail)
    (hroom : next.room + next.scope.thread.depth.current =
      m.room + m.scope.thread.depth.current)
    (hstands : next.task.StandsIn formatter.catalog m.scope.trail)
    (hmentions : ∀ o, next.task.Mentions o → m.task.Mentions o)
    (hlevels : next.scope.thread.depth.current + next.task.levels ≤
      m.scope.thread.depth.current + m.task.levels) : next.Fits formatter root where
  room := hroom.trans h.room
  nodup := htrail ▸ h.nodup
  closed := htrail ▸ h.closed
  path := htrail ▸ h.path
  stands := htrail ▸ hstands
  mentions o ho := htrail ▸ h.mentions o (hmentions o ho)
  levels := htrail ▸ Nat.le_trans hlevels h.levels

/-- The pattern of an entry that is not on the trail makes the path of references longer. -/
theorem openEntry (h : m.Fits formatter root) {o : Origin} {label : String} {p : Pattern}
    (hm : m.task = .pattern ⟨o, []⟩ label p) (hnew : ⟨o, []⟩ ∉ m.scope.trail) {isolating : Bool} :
    Moment.Fits formatter root ⟨m.room, .elements isolating ⟨o, []⟩ 0 p,
      { m.scope with trail := ⟨o, []⟩ :: m.scope.trail }⟩ := by
  have horigins : trailOrigins (⟨o, []⟩ :: m.scope.trail) = o :: trailOrigins m.scope.trail := by
    rw [trailOrigins_cons, if_pos rfl]
  have hstands := h.stands
  have hnext := h.mentions o (by simp [hm, Task.Mentions])
  have hlevels := h.levels
  rw [hm] at hstands hlevels
  obtain ⟨hp, -⟩ : formatter.catalog.patternOf? o = some p ∧ _ := hstands
  have hsome : (formatter.catalog.patternOf? o).isSome := by rw [hp]; rfl
  refine ⟨h.room, List.nodup_cons.2 ⟨hnew, h.nodup⟩, ?_, ?_, ?_, ?_, ?_⟩
  · intro place hplace
    show place.origin ∈ trailOrigins _
    rw [horigins]
    rcases List.mem_cons.1 hplace with rfl | hplace
    · exact List.mem_cons_self
    · exact List.mem_cons_of_mem _ (h.closed place hplace)
  · show IsPath _ _ (trailOrigins _)
    rw [horigins]
    refine .inr ?_
    rcases h.path with hnil | hpath
    · rw [hnil] at hnext ⊢
      obtain rfl : o = root := hnext
      exact .root hsome
    · cases hlast : trailOrigins m.scope.trail with
      | nil => rw [hlast] at hpath; cases hpath
      | cons last before =>
        rw [hlast] at hpath hnext
        exact .step hpath hnext hsome
  · refine ⟨?_, fun other hother hsame => ?_⟩
    · show o ∈ trailOrigins _
      rw [horigins]
      exact List.mem_cons_self
    · rcases List.mem_cons.1 hother with rfl | hother
      · exact Nat.le_refl _
      -- a place of this entry would be on the trail together with the entry's pattern
      · have hclosed := h.closed other hother
        rw [hsame, mem_trailOrigins] at hclosed
        exact absurd hclosed hnew
  · intro o' ho'
    show Catalog.Continues _ _ (trailOrigins _) _
    rw [horigins]
    exact ⟨p, hp, ho'⟩
  · show m.scope.thread.depth.current + Pattern.levels p ≤
      1 + Catalog.pathLevels _ (trailOrigins _)
    rw [horigins, Catalog.pathLevels_cons hp]
    simp only [Task.levels, if_pos] at hlevels
    omega

/-- The pattern of a variant stands on the trail without being the pattern of an entry. -/
theorem openVariant (h : m.Fits formatter root) {place : Place} {label : String} {p : Pattern}
    (hm : m.task = .pattern place label p) (hplace : place.path ≠ []) {isolating : Bool} :
    Moment.Fits formatter root ⟨m.room, .elements isolating place 0 p,
      { m.scope with trail := place :: m.scope.trail }⟩ := by
  -- the trail grows, the entries on it do not
  have horigins : trailOrigins (place :: m.scope.trail) = trailOrigins m.scope.trail := by
    rw [trailOrigins_cons, if_neg hplace]
  obtain ⟨hroom, hnodup, hclosed, hpath, hstands, hmentions, hlevels⟩ := h
  rw [hm] at hstands hmentions hlevels
  simp only [Task.StandsIn, Task.Mentions, Task.levels, if_neg hplace] at hstands hmentions hlevels
  obtain ⟨hwithin, hnew⟩ := hstands
  refine ⟨hroom, List.nodup_cons.2 ⟨hnew, hnodup⟩, ?_, ?_, ?_, ?_, ?_⟩
  · intro other hother
    show other.origin ∈ trailOrigins _
    rw [horigins]
    rcases List.mem_cons.1 hother with rfl | hother
    · exact hwithin.origin
    · exact hclosed other hother
  · show IsPath _ _ (trailOrigins _)
    rwa [horigins]
  · refine ⟨?_, fun other hother hsame => ?_⟩
    · show place.origin ∈ trailOrigins _
      rw [horigins]
      exact hwithin.origin
    · rcases List.mem_cons.1 hother with rfl | hother
      · exact Nat.le_refl _
      · exact hwithin.around other hother hsame
  · show ∀ o, Pattern.Mentions p o → Catalog.Continues _ _ (trailOrigins _) o
    rwa [horigins]
  · show _ + Pattern.levels p ≤ 1 + Catalog.pathLevels _ (trailOrigins _)
    rwa [horigins]

end Moment.Fits

/-- A reference leads to the pattern of an entry, which takes no level before it is on the trail. -/
theorem Moment.Fits.refer {formatter : Formatter} {root : Origin} {m next : Moment} {place : Place}
    {e : Expression} {o : Origin} {label : String} {p : Pattern} (h : m.Fits formatter root)
    (hm : m.task = .expression place e) (hnext : next.task = .pattern ⟨o, []⟩ label p)
    (htrail : next.scope.trail = m.scope.trail)
    (hdepth : next.scope.thread.depth.current = m.scope.thread.depth.current + 1)
    (hroom : next.room + next.scope.thread.depth.current =
      m.room + m.scope.thread.depth.current)
    (hmentions : e.peeled.Mentions o) (hp : formatter.catalog.patternOf? o = some p)
    (hlabel : label = o.label) : next.Fits formatter root := by
  refine h.follow htrail hroom ?_ ?_ ?_
  · rw [hnext]
    simp only [Task.StandsIn, if_pos]
    exact ⟨hp, hlabel⟩
  · intro o' ho'
    rw [hnext] at ho'
    obtain rfl : o' = o := by simpa [Task.Mentions] using ho'
    rw [hm]
    exact hmentions.of_peeled
  · have hlevel := e.one_le_levels
    rw [hnext, hm, hdepth]
    simp only [Task.levels, if_pos]
    omega

/-- **What holds at a moment goes on to hold.** -/
theorem Starts.fits {session : Session} {formatter : Formatter} {root : Origin} {m next : Moment}
    (h : Starts session formatter m next) (hm : m.Fits formatter root) :
    next.Fits formatter root := by
  obtain ⟨htrail, hdepth, hroom⟩ := h.keeps
  cases h with
  | @message room place e scope depth id attr p henter he hp =>
    have hmentions : e.peeled.Mentions (.message id.name (attr.map (·.name))) := by
      rw [he]
      exact .message id attr
    exact hm.refer rfl rfl htrail hdepth hroom hmentions hp rfl
  | @term room place e scope depth id attr arguments p henter he hp =>
    have hmentions : e.peeled.Mentions (.term id.name (attr.map (·.name))) := by
      rw [he]
      exact .term id attr arguments
    exact hm.refer rfl rfl htrail hdepth hroom hmentions hp rfl
  | @call room place e scope depth id call f henter he hf =>
    have hlevels : e.levels = call.levels + 1 := by rw [← e.levels_peeled, he, Expression.levels]
    refine hm.follow htrail hroom ?_ ?_ ?_
    · exact hm.stands.within (by simp [he])
    · rintro o ⟨argument, hargument, ho⟩
      refine Expression.Mentions.of_peeled ?_
      rw [he]
      exact .argument hargument ho
    · -- the call takes one level, and its arguments no more than the expression has left
      have hcall : argumentsLevels call.positional = call.levels := by cases call; rfl
      rw [hdepth]
      show scope.thread.depth.current + 1 + argumentsLevels call.positional ≤
        scope.thread.depth.current + e.levels
      omega
  | @selector room place e scope depth s henter he =>
    have hlevels : e.levels = s.levels + 1 := by rw [← e.levels_peeled, he, Expression.levels]
    refine hm.follow htrail hroom ?_ ?_ ?_
    · exact .inr ((hm.stands.within (by simp [he])).step 0).1
    · intro o ho
      refine Expression.Mentions.of_peeled ?_
      rw [he]
      exact .selector ho
    · have hselector := (Selection.levels_le_iff.1 (Nat.le_refl s.levels)).1
      rw [hdepth]
      show scope.thread.depth.current + 1 + s.selector.levels ≤
        scope.thread.depth.current + e.levels
      omega
  | @variant room place e scope mid chosen depth s result index v henter he _ _ hv =>
    have hlevels : e.levels = s.levels + 1 := by rw [← e.levels_peeled, he, Expression.levels]
    have hmem : v ∈ s.variants := List.mem_of_getElem? hv
    -- the pattern of a variant is no entry's, so it adds nothing to the path
    have hstep : (place.step (index + 1)).path ≠ [] := nofun
    refine hm.follow htrail hroom ?_ ?_ ?_
    · simp only [Task.StandsIn, if_neg hstep]
      exact (hm.stands.within (by simp [he])).step (index + 1)
    · intro o ho
      simp only [Task.Mentions, if_neg hstep] at ho
      obtain ⟨inner, hinner, ho⟩ := ho
      refine Expression.Mentions.of_peeled ?_
      rw [he]
      exact .variant hmem hinner ho
    · have hvariant := (Selection.levels_le_iff.1 (Nat.le_refl s.levels)).2 v hmem
      rw [hdepth]
      simp only [Task.levels, if_neg hstep, Moment.innerDepth]
      omega
  | @elements room place label p scope hnew =>
    obtain ⟨o, path⟩ := place
    -- a whole pattern of an entry lengthens the path; any other pattern does not
    cases path with
    | nil => exact hm.openEntry rfl hnew
    | cons => exact hm.openVariant rfl nofun
  | text =>
    refine hm.follow htrail hroom hm.stands ?_ ?_
    · rintro o ⟨e, he, ho⟩
      exact ⟨e, List.mem_cons_of_mem _ he, ho⟩
    · exact Nat.add_le_add_left (Nat.le_max_right ..) _
  | placeable =>
    refine hm.follow htrail hroom (.inr (hm.stands.step _).1) ?_ ?_
    · exact fun o ho => ⟨_, List.mem_cons_self, ho⟩
    · exact Nat.add_le_add_left (Nat.le_max_left ..) _
  | following =>
    refine hm.follow htrail hroom hm.stands ?_ ?_
    · rintro o ⟨e, he, ho⟩
      exact ⟨e, List.mem_cons_of_mem _ he, ho⟩
    · rw [hdepth]
      exact Nat.add_le_add_left (Nat.le_max_right ..) _
  | argument =>
    refine hm.follow htrail hroom (.inr (hm.stands.step _).1) ?_ ?_
    · exact fun o ho => ⟨_, List.mem_cons_self, ho⟩
    · exact Nat.add_le_add_left (Nat.le_max_left ..) _
  | nextArgument =>
    refine hm.follow htrail hroom hm.stands ?_ ?_
    · rintro o ⟨e, he, ho⟩
      exact ⟨e, List.mem_cons_of_mem _ he, ho⟩
    · rw [hdepth]
      exact Nat.add_le_add_left (Nat.le_max_right ..) _

/-! ## Depths and cycles -/

/-- Each pattern on a path is led to from the root, and leads to the last one. -/
theorem ReferencePath.leads {catalog : Catalog} {root : Origin} {path : List Origin}
    (h : ReferencePath catalog root path) :
    ∀ o ∈ path, Relation.ReflTransGen catalog.Refers root o ∧
      ∀ last, path.head? = some last → Relation.ReflTransGen catalog.Refers o last := by
  induction h with
  | root =>
    intro o ho
    obtain rfl := List.mem_singleton.1 ho
    refine ⟨.refl, ?_⟩
    rintro last ⟨⟩
    exact .refl
  | @step o next before _ hrefers _ ih =>
    intro o' ho'
    rcases List.mem_cons.1 ho' with rfl | ho'
    · refine ⟨(ih o List.mem_cons_self).1.tail hrefers, ?_⟩
      rintro last ⟨⟩
      exact .refl
    · refine ⟨(ih o' ho').1, ?_⟩
      rintro last ⟨⟩
      exact ((ih o' ho').2 o rfl).tail hrefers

namespace Moment.Fits

variable {formatter : Formatter} {root : Origin} {m : Moment}

/-- The level that an expression takes fits into the patterns on the trail. -/
theorem level_fits (h : m.Fits formatter root) {place : Place} {e : Expression}
    (hm : m.task = .expression place e) :
    m.scope.thread.depth.current ≤ formatter.catalog.pathLevels (trailOrigins m.scope.trail) := by
  have hlevels := h.levels
  have hlevel := e.one_le_levels
  rw [hm] at hlevels
  simp only [Task.levels] at hlevels
  omega

/-- **A pattern that is met on the trail is that of an entry on a cycle of references.** -/
theorem cycle (h : m.Fits formatter root) {place : Place} {label : String} {p : Pattern}
    (hm : m.task = .pattern place label p) (hon : place ∈ m.scope.trail) :
    place.path = [] ∧ formatter.catalog.patternOf? place.origin = some p ∧
      label = place.origin.label ∧
      Relation.ReflTransGen formatter.catalog.Refers root place.origin ∧
      Relation.TransGen formatter.catalog.Refers place.origin place.origin := by
  obtain ⟨o, path⟩ := place
  have hstands := h.stands
  have hmentions := h.mentions o
  rw [hm] at hstands hmentions
  cases path with
  | cons index path => exact absurd hon hstands.2
  | nil =>
    obtain ⟨hp, hlabel⟩ : _ ∧ _ := hstands
    have hmem : o ∈ trailOrigins m.scope.trail := mem_trailOrigins.2 hon
    have hnext := hmentions (by simp [Task.Mentions])
    rcases h.path with hnil | hpath
    · simp [hnil] at hmem
    obtain ⟨hroot, hlast⟩ := hpath.leads o hmem
    cases horigins : trailOrigins m.scope.trail with
    | nil => simp [horigins] at hmem
    | cons last before =>
      rw [horigins] at hnext hlast
      exact ⟨rfl, hp, hlabel, hroot, Relation.TransGen.tail' (hlast last rfl) hnext⟩

end Moment.Fits

end Fluent
