/-
# Resolving is local

What a resolution returns, and which problems it adds, depends on the setting only: on the values
of variables, on the patterns that are being resolved and on the depth.  The problems that were met
before do not matter, and nothing of the scope is changed but that problems are added.  So the
elements of a pattern can be resolved one by one.

* `Resolving.IsLocal` : in a setting a resolution always breaks off, or always returns the same;
* `Session.local_resolve` : so does finding the value of an expression;
* `Session.resolution_local` : all this together, and patterns put together from their elements.
-/
import Mathlib.Data.List.Forall2
import Fluent.Proofs.Format.Reporting

namespace Fluent

/-- The scope afterwards is the one before with the given problems, in the order of their being
met. -/
structure Scope.Adds (added : List ResolverError) (before after : Scope) : Prop where
  keeps : before.Keeps after
  errors : after.errors = added.reverse ++ before.errors

/-- Nothing is added to a scope by leaving it as it is. -/
theorem Scope.Adds.refl (scope : Scope) : Scope.Adds [] scope scope :=
  ⟨.refl scope, rfl⟩

/-- What is added in two steps is added in a row. -/
theorem Scope.Adds.trans {first second : List ResolverError} {a b c : Scope}
    (h : Scope.Adds first a b) (h' : Scope.Adds second b c) : Scope.Adds (first ++ second) a c where
  keeps := h.keeps.trans h'.keeps
  errors := by rw [h'.errors, h.errors, List.reverse_append, List.append_assoc]

/-- A scope of the setting in which no problem has been met. -/
def Setting.scope (s : Setting) : Scope where
  args := s.vars
  trail := s.trail
  thread := { depth := { current := s.depth } }

/-- The scope made of a setting has this setting. -/
theorem Setting.setting_scope (s : Setting) : s.scope.setting = s :=
  rfl

namespace Resolving

variable {α β : Type} {s : Setting}

/-! ## What a resolution does in a setting -/

/-- In every scope of the setting the resolution returns the result and adds the problems. -/
def Returns (s : Setting) (m : Resolving α) (a : α) (added : List ResolverError) : Prop :=
  ∀ scope : Scope, scope.setting = s → ∃ after, m scope = .returned a after ∧
    Scope.Adds added scope after

/-- In every scope of the setting the resolution breaks off. -/
def BreaksOff (s : Setting) (m : Resolving α) : Prop :=
  ∀ scope : Scope, scope.setting = s → ∃ thread, m scope = .brokenOff thread

/-- What the resolution does depends on the setting only. -/
def IsLocal (m : Resolving α) : Prop :=
  ∀ s, BreaksOff s m ∨ ∃ a added, Returns s m a added

/-- A resolution that returns does not break off in the same setting. -/
theorem Returns.not_breaksOff {m : Resolving α} {a : α} {added : List ResolverError}
    (h : Returns s m a added) : ¬BreaksOff s m := by
  intro hb
  obtain ⟨after, hreturned, -⟩ := h s.scope s.setting_scope
  obtain ⟨thread, hbroken⟩ := hb s.scope s.setting_scope
  cases hreturned.symm.trans hbroken

/-- In a setting there is one result, and one list of problems. -/
theorem Returns.unique {m : Resolving α} {a a' : α} {added added' : List ResolverError}
    (h : Returns s m a added) (h' : Returns s m a' added') : a = a' ∧ added = added' := by
  obtain ⟨after, hreturned, hadds⟩ := h s.scope s.setting_scope
  obtain ⟨after', hreturned', hadds'⟩ := h' s.scope s.setting_scope
  obtain ⟨rfl, rfl⟩ := Outcome.returned.inj (hreturned.symm.trans hreturned')
  exact ⟨rfl, List.reverse_injective (List.append_cancel_right (hadds.errors.symm.trans
    hadds'.errors))⟩

/-! ## Two resolutions in a row -/

theorem returns_pure (a : α) : Returns s (pure a) a [] :=
  fun scope _ => ⟨scope, rfl, .refl scope⟩

/-- Two steps that return add the problems of both, in order. -/
theorem Returns.bind {first : Resolving α} {next : α → Resolving β} {a : α} {b : β}
    {added added' : List ResolverError} (h : Returns s first a added)
    (h' : Returns s (next a) b added') : Returns s (first >>= next) b (added ++ added') := by
  intro scope hs
  obtain ⟨mid, hmid, hadds⟩ := h scope hs
  obtain ⟨after, hafter, hadds'⟩ := h' mid (hadds.keeps.setting.trans hs)
  exact ⟨after, (bind_of_returned hmid).trans hafter, hadds.trans hadds'⟩

/-- A result may be mapped without adding a problem. -/
theorem Returns.map {m : Resolving α} {a : α} {added : List ResolverError} (h : Returns s m a added)
    (f : α → β) : Returns s (f <$> m) (f a) added :=
  List.append_nil added ▸ h.bind (returns_pure (f a))

/-- Nothing follows a first step that breaks off. -/
theorem BreaksOff.bind {first : Resolving α} (h : BreaksOff s first) (next : α → Resolving β) :
    BreaksOff s (first >>= next) := by
  intro scope hs
  obtain ⟨thread, hthread⟩ := h scope hs
  exact ⟨thread, bind_of_brokenOff hthread⟩

/-- A second step that breaks off breaks off the whole. -/
theorem Returns.bind_breaksOff {first : Resolving α} {next : α → Resolving β} {a : α}
    {added : List ResolverError} (h : Returns s first a added) (h' : BreaksOff s (next a)) :
    BreaksOff s (first >>= next) := by
  intro scope hs
  obtain ⟨mid, hmid, hadds⟩ := h scope hs
  obtain ⟨thread, hthread⟩ := h' mid (hadds.keeps.setting.trans hs)
  exact ⟨thread, (bind_of_returned hmid).trans hthread⟩

theorem local_pure (a : α) : IsLocal (pure a : Resolving α) :=
  fun _ => .inr ⟨a, [], returns_pure a⟩

/-- Local steps in a row are local: the second one starts in the same setting. -/
theorem local_bind {first : Resolving α} {next : α → Resolving β} (h : IsLocal first)
    (h' : ∀ a, IsLocal (next a)) : IsLocal (first >>= next) := by
  intro s
  rcases h s with hbreaks | ⟨a, added, hreturns⟩
  · exact .inl (hbreaks.bind next)
  · rcases h' a s with hbreaks | ⟨b, added', hreturns'⟩
    · exact .inl (hreturns.bind_breaksOff hbreaks)
    · exact .inr ⟨b, _, hreturns.bind hreturns'⟩

/-- Two resolutions in a row break off if the first one does, or the second one after it. -/
theorem breaksOff_bind_iff {first : Resolving α} {next : α → Resolving β} (h : IsLocal first)
    (h' : ∀ a, IsLocal (next a)) : BreaksOff s (first >>= next) ↔
      BreaksOff s first ∨ ∃ a added, Returns s first a added ∧ BreaksOff s (next a) := by
  constructor
  · intro hb
    rcases h s with hbreaks | ⟨a, added, hreturns⟩
    · exact .inl hbreaks
    · rcases h' a s with hbreaks | ⟨b, added', hreturns'⟩
      · exact .inr ⟨a, added, hreturns, hbreaks⟩
      · exact absurd hb (hreturns.bind hreturns').not_breaksOff
  · rintro (hbreaks | ⟨a, added, hreturns, hbreaks⟩)
    · exact hbreaks.bind next
    · exact hreturns.bind_breaksOff hbreaks

/-- Two resolutions in a row return if both do; the problems of the first one come first. -/
theorem returns_bind_iff {first : Resolving α} {next : α → Resolving β} (h : IsLocal first)
    (h' : ∀ a, IsLocal (next a)) {b : β} {added : List ResolverError} :
    Returns s (first >>= next) b added ↔ ∃ a before after, Returns s first a before ∧
      Returns s (next a) b after ∧ added = before ++ after := by
  constructor
  · intro hb
    rcases h s with hbreaks | ⟨a, before, hreturns⟩
    · exact absurd (hbreaks.bind next) hb.not_breaksOff
    · rcases h' a s with hbreaks | ⟨b', after, hreturns'⟩
      · exact absurd (hreturns.bind_breaksOff hbreaks) hb.not_breaksOff
      · obtain ⟨rfl, rfl⟩ := hb.unique (hreturns.bind hreturns')
        exact ⟨a, before, after, hreturns, hreturns', rfl⟩
  · rintro ⟨a, before, after, hreturns, hreturns', rfl⟩
    exact hreturns.bind hreturns'

/-- Recording a problem does the same everywhere. -/
theorem local_record (error : ResolverError) : IsLocal (record error) :=
  fun _ => .inr ⟨(), [error], fun scope _ =>
    ⟨scope.record error, rfl, frames_record error scope () _ rfl, rfl⟩⟩

/-! ## Resolutions inside another scope -/

/-- A step that runs its body in another scope, whose setting is always the same, and that leaves
the problems as the body does, does what the body does. -/
structure Wraps (s inner : Setting) (m body : Resolving α) : Prop where
  frames : Frames m
  eq : ∀ scope : Scope, scope.setting = s → ∃ entered f g, m scope = (body entered).leaving f g ∧
    entered.setting = inner ∧ entered.errors = scope.errors ∧
    ∀ after, (f after).errors = after.errors

/-- A step breaks off where its body does. -/
theorem Wraps.breaksOff {m body : Resolving α} {inner : Setting} (h : Wraps s inner m body)
    (hbody : BreaksOff inner body) : BreaksOff s m := by
  intro scope hs
  obtain ⟨entered, f, g, heq, hinner, -, -⟩ := h.eq scope hs
  obtain ⟨thread, hthread⟩ := hbody entered hinner
  rw [heq, hthread]
  exact ⟨g thread, rfl⟩

/-- A step returns what its body returns. -/
theorem Wraps.returns {m body : Resolving α} {inner : Setting} {a : α} {added : List ResolverError}
    (h : Wraps s inner m body) (hbody : Returns inner body a added) : Returns s m a added := by
  intro scope hs
  obtain ⟨entered, f, g, heq, hinner, hsame, herrors⟩ := h.eq scope hs
  obtain ⟨after, hafter, hadds⟩ := hbody entered hinner
  have hreturned : m scope = .returned a (f after) := by
    rw [heq, hafter]
    rfl
  refine ⟨f after, hreturned, h.frames _ _ _ hreturned, ?_⟩
  rw [herrors, hadds.errors, hsame]

/-- A step around a local body breaks off or returns, in the given setting. -/
theorem Wraps.local {m body : Resolving α} {inner : Setting} (h : Wraps s inner m body)
    (hbody : IsLocal body) : BreaksOff s m ∨ ∃ a added, Returns s m a added := by
  rcases hbody inner with hbreaks | ⟨a, added, hreturns⟩
  · exact .inl (h.breaksOff hbreaks)
  · exact .inr ⟨a, added, h.returns hreturns⟩

/-- A step around a local body breaks off exactly when the body does. -/
theorem Wraps.breaksOff_iff {m body : Resolving α} {inner : Setting} (h : Wraps s inner m body)
    (hbody : IsLocal body) : BreaksOff s m ↔ BreaksOff inner body := by
  refine ⟨fun hm => ?_, h.breaksOff⟩
  rcases hbody inner with hbreaks | ⟨a, added, hreturns⟩
  · exact hbreaks
  · exact absurd hm (h.returns hreturns).not_breaksOff

/-- A step around a local body returns exactly what the body does. -/
theorem Wraps.returns_iff {m body : Resolving α} {inner : Setting} (h : Wraps s inner m body)
    (hbody : IsLocal body) {a : α} {added : List ResolverError} :
    Returns s m a added ↔ Returns inner body a added := by
  refine ⟨fun hm => ?_, h.returns⟩
  rcases hbody inner with hbreaks | ⟨a', added', hreturns⟩
  · exact absurd (h.breaksOff hbreaks) hm.not_breaksOff
  · obtain ⟨rfl, rfl⟩ := hm.unique (h.returns hreturns)
    exact hreturns

/-- Giving a body its own arguments does what the body does in the setting with these. -/
theorem wraps_withLocalArgs (args : Arguments) {body : Resolving α} (hframes : Frames body) :
    Wraps s (s.withVars args) (withLocalArgs args body) body where
  frames := frames_withLocalArgs args hframes
  eq scope hs :=
    ⟨_, _, _, withLocalArgs_eq args body scope, by rw [← hs]; rfl, rfl, fun _ => rfl⟩

/-- Putting a place on the trail does what the body does in the setting inside that place. -/
theorem wraps_withPlace (place : Place) {body : Resolving α} (hframes : Frames body) :
    Wraps s (s.inside place) (withPlace place body) body where
  frames := frames_withPlace place hframes
  eq scope hs := ⟨_, _, _, withPlace_eq place body scope, by rw [← hs]; rfl, rfl, fun _ => rfl⟩

/-- Below the limit. -/
theorem wraps_guarded {limit : Nat} (hlimit : s.depth < limit) {atLimit body : Resolving α}
    (hl : Frames atLimit) (hframes : Frames body) :
    Wraps s s.deeper (guarded limit atLimit body) body where
  frames := frames_guarded limit hl hframes
  eq scope hs := by
    have hcurrent : scope.thread.depth.current < limit := by
      rw [← hs] at hlimit
      exact hlimit
    obtain ⟨entered, hentered⟩ : ∃ entered, scope.thread.depth.enter? limit = some entered :=
      ⟨_, if_pos hcurrent⟩
    refine ⟨_, _, _, guarded_of_entered hentered, ?_, rfl, fun _ => rfl⟩
    rw [← hs, Scope.setting, Scope.withDepth, (Depth.enter?_eq_some_iff.1 hentered).2.1]
    rfl

/-- A guarded body is local: the count is part of the setting. -/
theorem local_guarded (limit : Nat) {atLimit body : Resolving α} (hl : Frames atLimit)
    (hlocal : IsLocal atLimit) (hframes : Frames body) (h : IsLocal body) :
    IsLocal (guarded limit atLimit body) := by
  intro s
  by_cases hlimit : s.depth < limit
  · exact (wraps_guarded hlimit hl hframes).local h
  · -- at the limit the body is not run
    have hfull : ∀ scope : Scope, scope.setting = s →
        guarded limit atLimit body scope = atLimit scope := by
      intro scope hs
      refine guarded_of_full (if_neg ?_)
      rw [← hs] at hlimit
      exact hlimit
    rcases hlocal s with hbreaks | ⟨a, added, hreturns⟩
    · exact .inl fun scope hs => hfull scope hs ▸ hbreaks scope hs
    · exact .inr ⟨a, added, fun scope hs => hfull scope hs ▸ hreturns scope hs⟩

/-- The steps of resolving are local. -/
theorem congruence_local : Congruence fun m _ => Frames m ∧ IsLocal m where
  pure a := ⟨frames_pure a, local_pure a⟩
  bind h h' := ⟨frames_bind h.1 fun a => (h' a).1, local_bind h.2 fun a => (h' a).2⟩
  breakOff := ⟨congruence_frames.breakOff, fun _ => .inl fun scope _ => ⟨scope.thread, rfl⟩⟩
  record error := ⟨frames_record error, local_record error⟩
  valueOf? name := by
    refine ⟨congruence_frames.valueOf? name, fun s => .inr ⟨s.vars.find? name, [], ?_⟩⟩
    rintro scope rfl
    exact ⟨scope, rfl, .refl scope⟩
  isOnTrail place := by
    refine ⟨congruence_frames.isOnTrail place, fun s => .inr ⟨decide (place ∈ s.trail), [], ?_⟩⟩
    rintro scope rfl
    exact ⟨scope, rfl, .refl scope⟩
  withLocalArgs args _ _ h :=
    ⟨frames_withLocalArgs args h.1, fun _ => (wraps_withLocalArgs args h.1).local h.2⟩
  withPlace place _ _ h :=
    ⟨frames_withPlace place h.1, fun _ => (wraps_withPlace place h.1).local h.2⟩

end Resolving

open Resolving

/-! ## The elements of a pattern -/

namespace Level

/-- The text of one element. -/
def element (level : Level) (isolating : Bool) (place : Place) (index : Nat) :
    PatternElement → Resolving (List Char)
  | .text value => pure value.toList
  | .placeable e => do
    let result ← level.resolve (place.step index) e
    let text ← result.text
    return isolated (isolating && e.needsIsolation) text

/-- The texts of elements are those of each of them. -/
theorem elements_cons (level : Level) (isolating : Bool) (place : Place) (index : Nat)
    (element : PatternElement) (rest : List PatternElement) :
    level.elements isolating place index (element :: rest) =
      (level.element isolating place index element >>= fun text =>
        (text ++ ·) <$> level.elements isolating place (index + 1) rest) := by
  cases element with
  | text value => rfl
  | placeable e =>
    funext scope
    simp only [elements, Level.element, Functor.map, Bind.bind]
    cases level.resolve (place.step index) e scope with
    | brokenOff thread => rfl
    | returned result mid =>
      dsimp only
      cases result.text mid with
      | brokenOff thread => rfl
      | returned text written => rfl

/-- What the elements from an index on do one by one: the text of each, and the problems that it
adds. -/
def Parts (level : Level) (s : Setting) (isolating : Bool) (place : Place) (index : Nat)
    (list : List PatternElement) (parts : List (List Char × List ResolverError)) : Prop :=
  List.Forall₂ (fun indexed part =>
    Returns s (level.element isolating place indexed.2 indexed.1) part.1 part.2)
    (list.zipIdx index) parts

section Local

variable {level : Level}
  (h : level.Related (fun m _ => Frames m ∧ IsLocal m) level)
include h

/-- One element of a pattern is local if the expressions one level deeper are. -/
theorem local_element (isolating : Bool) (place : Place) (index : Nat) (element : PatternElement) :
    IsLocal (level.element isolating place index element) := by
  cases element with
  | text value => exact local_pure _
  | placeable e =>
    exact local_bind (h.resolve _ _).2 fun result =>
      local_bind (congruence_local.text result).2 fun _ => local_pure _

/-- So are all its elements, by induction on those left. -/
theorem local_elements (isolating : Bool) (place : Place) (index : Nat)
    (list : List PatternElement) : IsLocal (level.elements isolating place index list) :=
  (h.elements congruence_local isolating place list index).2

/-- The text of elements is put together from theirs, and so are the problems. -/
theorem returns_elements_iff {s : Setting} {isolating : Bool} {place : Place} {index : Nat}
    {list : List PatternElement} {text : List Char} {added : List ResolverError} :
    Returns s (level.elements isolating place index list) text added ↔
      ∃ parts, level.Parts s isolating place index list parts ∧
        text = (parts.map Prod.fst).flatten ∧ added = (parts.map Prod.snd).flatten := by
  induction list generalizing index text added with
  | nil =>
    constructor
    · intro hr
      obtain ⟨rfl, rfl⟩ := hr.unique (returns_pure [])
      exact ⟨[], .nil, rfl, rfl⟩
    · rintro ⟨_, ⟨⟩, rfl, rfl⟩
      exact returns_pure []
  | cons element rest ih =>
    have helement := local_element h isolating place index element
    have hrest := local_elements h isolating place (index + 1) rest
    have hmap : ∀ own : List Char,
        IsLocal ((own ++ ·) <$> level.elements isolating place (index + 1) rest) :=
      fun own => local_bind hrest fun _ => local_pure _
    rw [elements_cons, returns_bind_iff helement hmap]
    constructor
    · rintro ⟨own, before, after, hown, hmap, rfl⟩
      obtain ⟨texts, problems, _, htexts, hpure, rfl⟩ :=
        (returns_bind_iff hrest fun _ => local_pure _).1 hmap
      obtain ⟨rfl, rfl⟩ := hpure.unique (returns_pure _)
      obtain ⟨parts, hparts, rfl, rfl⟩ := ih.1 htexts
      exact ⟨(own, before) :: parts, .cons hown hparts, rfl, by simp⟩
    · rintro ⟨_, hparts, rfl, rfl⟩
      -- the first part is that of the first element, and the others are parts of the rest
      rw [Parts, List.zipIdx_cons] at hparts
      obtain ⟨part, parts, hown, hothers, rfl⟩ := List.forall₂_cons_left_iff.1 hparts
      exact ⟨part.1, part.2, _, hown, (ih.2 ⟨parts, hothers, rfl, rfl⟩).map _, rfl⟩

/-- Elements break off if one of them does. -/
theorem breaksOff_elements_iff {s : Setting} {isolating : Bool} {place : Place} {index : Nat}
    {list : List PatternElement} :
    BreaksOff s (level.elements isolating place index list) ↔ ∃ indexed ∈ list.zipIdx index,
      BreaksOff s (level.element isolating place indexed.2 indexed.1) := by
  induction list generalizing index with
  | nil => simp [elements, (returns_pure (s := s) ([] : List Char)).not_breaksOff]
  | cons element rest ih =>
    have helement := local_element h isolating place index element
    have hrest := local_elements h isolating place (index + 1) rest
    have hmap : ∀ own : List Char,
        IsLocal ((own ++ ·) <$> level.elements isolating place (index + 1) rest) ∧
        (BreaksOff s ((own ++ ·) <$> level.elements isolating place (index + 1) rest) ↔
          BreaksOff s (level.elements isolating place (index + 1) rest)) := by
      intro own
      refine ⟨local_bind hrest fun _ => local_pure _,
        (breaksOff_bind_iff hrest fun _ => local_pure _).trans (or_iff_left ?_)⟩
      rintro ⟨texts, added, -, hpure⟩
      exact (returns_pure _).not_breaksOff hpure
    rw [elements_cons, breaksOff_bind_iff helement fun own => (hmap own).1, List.zipIdx_cons,
      List.exists_mem_cons_iff, ← ih]
    constructor
    · rintro (hbreaks | ⟨own, added, -, hbreaks⟩)
      · exact .inl hbreaks
      · exact .inr ((hmap own).2.1 hbreaks)
    · rintro (hbreaks | hbreaks)
      · exact .inl hbreaks
      · -- the first element breaks off as well, or else the rest is reached
        rcases helement s with hfirst | ⟨own, added, hreturns⟩
        · exact .inl hfirst
        · exact .inr ⟨own, added, hreturns, (hmap own).2.2 hbreaks⟩

/-- The text of a pattern that is not being resolved is that of its elements. -/
theorem wraps_pattern {s : Setting} {place : Place} (hnew : place ∉ s.trail) (label : String)
    (p : Pattern) : Wraps s (s.inside place) (level.pattern place label p)
      (level.elements (level.isolates p) place 0 p) := by
  have hframes := (h.elements congruence_local (level.isolates p) place p 0).1
  have hwraps : Wraps s (s.inside place)
      (withPlace place (level.elements (level.isolates p) place 0 p)) _ :=
    wraps_withPlace place hframes
  refine ⟨(h.pattern congruence_local place label p).1, fun scope hs => ?_⟩
  have htrail : isOnTrail place scope = .returned false scope := by
    rw [← hs] at hnew
    exact congrArg (Outcome.returned · scope) (decide_eq_false hnew)
  have heq : level.pattern place label p scope =
      withPlace place (level.elements (level.isolates p) place 0 p) scope := by
    rw [pattern, bind_of_returned htrail]
    rfl
  rw [heq]
  exact hwraps.eq scope hs

end Local

/-- A pattern that is being resolved is not resolved again. -/
theorem returns_cyclic (level : Level) {s : Setting} {place : Place} (hcyclic : place ∈ s.trail)
    (label : String) (p : Pattern) :
    Returns s (level.pattern place label p) (braced label) [.cyclic label] := by
  intro scope hs
  have htrail : isOnTrail place scope = .returned true scope := by
    rw [← hs] at hcyclic
    exact congrArg (Outcome.returned · scope) (decide_eq_true hcyclic)
  refine ⟨scope.record (.cyclic label), ?_, frames_record _ scope () _ rfl, rfl⟩
  rw [pattern, bind_of_returned htrail]
  rfl

end Level

/-! ## All levels together -/

namespace Session

variable (session : Session) {formatter : Formatter}

/-- A call that asks for no texts is local. -/
theorem local_run (level : Level) {call : Call} (h : call.IsPlain) : IsLocal (level.run call) := by
  have hthread : ∀ thread, (call.run level.ask thread).2 = thread ∧
      (call.run level.ask thread).1 = (call.run level.ask {}).1 := by
    intro thread
    cases call with
    | value | failure | breakOff => exact ⟨rfl, rfl⟩
    | format => exact h.elim
  refine fun s => .inr ⟨(call.run level.ask {}).1, [], fun scope _ => ⟨scope, ?_, .refl scope⟩⟩
  obtain ⟨hsame, hresult⟩ := hthread scope.thread
  rw [Level.run, hsame, hresult]

/-- A level whose expressions are local is related to itself by locality, if no function calls
back. -/
theorem related_local (hplain : formatter.functions.IsPlain) {room : Nat}
    (h : ∀ place e, IsLocal (session.resolve room formatter place e)) :
    (session.level room formatter).Related (fun m _ => Frames m ∧ IsLocal m)
      (session.level room formatter) where
  formatter := rfl
  resolve place e := ⟨session.frames_resolve room formatter place e, h place e⟩
  run call hcall := by
    obtain ⟨name, f, positional, named, hf, rfl⟩ := hcall
    exact ⟨session.frames_run room formatter _, local_run _ (hplain name f hf positional named)⟩

/-- Finding the value of an expression is local. -/
theorem local_resolve (hplain : formatter.functions.IsPlain) (room : Nat) (place : Place)
    (e : Expression) : IsLocal (session.resolve room formatter place e) := by
  induction room generalizing place e with
  | zero => exact (congruence_local.failed _ _).2
  | succ room ih =>
    obtain ⟨hframes, hlocal⟩ :=
      (session.related_local hplain ih).expression congruence_local place e.peeled
    exact local_guarded _ (frames_tooDeep _) (congruence_local.failed _ _).2 hframes hlocal

/-- **Resolving is local.**  Where functions ask for no texts, an expression or a pattern either
breaks off in every scope of a setting, or it returns the same in all of them, adds the same
problems and changes nothing else; a placeholder comes with a problem.  A pattern that is being
resolved leaves only a label and the problem of the cycle.  The text of any other pattern is put
together from the texts of its elements, each of them resolved alone, and so are its problems; it
breaks off if one of them does. -/
theorem resolution_local (hplain : formatter.functions.IsPlain) (room : Nat) (scope : Scope) :
    let level := session.level room formatter
    (∀ place e, let m := session.resolve room formatter place e
      BreaksOff scope.setting m ∨ ∃ result added, Returns scope.setting m result added ∧
        (result.IsPlaceholder → added ≠ [])) ∧
    ∀ place label p, let m := level.pattern place label p
      (BreaksOff scope.setting m ∨ ∃ text added, Returns scope.setting m text added) ∧
      (place ∈ scope.trail → Returns scope.setting m (braced label) [.cyclic label]) ∧
      (place ∉ scope.trail →
        (∀ text added, Returns scope.setting m text added ↔ ∃ parts,
          level.Parts (scope.setting.inside place) (level.isolates p) place 0 p parts ∧
            text = (parts.map Prod.fst).flatten ∧ added = (parts.map Prod.snd).flatten) ∧
        (BreaksOff scope.setting m ↔ ∃ indexed ∈ p.zipIdx,
          BreaksOff (scope.setting.inside place)
            (level.element (level.isolates p) place indexed.2 indexed.1))) := by
  intro level
  have hlevel := session.related_local hplain (session.local_resolve hplain room)
  refine ⟨fun place e => ?_, fun place label p => ⟨?_, fun hcyclic => ?_, fun hnew => ?_⟩⟩
  · refine (session.local_resolve hplain room place e scope.setting).imp_right ?_
    rintro ⟨result, added, hreturns⟩
    refine ⟨result, added, hreturns, fun hbad hnone => ?_⟩
    obtain ⟨after, hafter, hadds⟩ := hreturns scope rfl
    -- a placeholder makes the list of problems longer, so something was added
    have hmore := session.reports_resolve room formatter place e scope result after hafter hbad
    rw [hadds.errors, hnone] at hmore
    exact Nat.lt_irrefl _ hmore
  · exact (hlevel.pattern congruence_local place label p).2 scope.setting
  · exact Level.returns_cyclic level hcyclic label p
  · have hwraps := Level.wraps_pattern hlevel (s := scope.setting) hnew label p
    have helements := Level.local_elements hlevel (level.isolates p) place 0 p
    refine ⟨fun text added => ?_, ?_⟩
    · exact (hwraps.returns_iff helements).trans (Level.returns_elements_iff hlevel)
    · exact (hwraps.breaksOff_iff helements).trans (Level.breaksOff_elements_iff hlevel)

/-- Someone unknown meets Ana: whatever problems have been met before, the text is the same, and the
one problem is that of the unknown name. -/
theorem resolution_local_meeting :
    let session : Session := ⟨{ catalog := .empty }, []⟩
    let scope : Scope := { args := .ofList [("name", .string "Ana")] }
    session.main.functions.IsPlain ∧
      Returns scope.setting ((session.level 1 session.main).pattern ⟨.message "meeting" none, []⟩
        "meeting" [.placeable (.var ⟨"who"⟩), .text " meets ", .placeable (.var ⟨"name"⟩)])
        "\u2068\x7b$who\x7d\u2069 meets \u2068Ana\u2069".toList [.unknownVariable "who"] := by
  intro session scope
  have hplain : session.main.functions.IsPlain := FunctionTable.isPlain_builtins
  refine ⟨hplain, ?_⟩
  have hrun : (session.level 1 session.main).pattern ⟨.message "meeting" none, []⟩
      "meeting" [.placeable (.var ⟨"who"⟩), .text " meets ", .placeable (.var ⟨"name"⟩)] scope =
        .returned "\u2068\x7b$who\x7d\u2069 meets \u2068Ana\u2069".toList
          { scope with errors := [.unknownVariable "who"], thread := { depth := ⟨0, 1⟩ } } := rfl
  rcases ((session.resolution_local hplain 1 scope).2 ⟨.message "meeting" none, []⟩ "meeting" _).1
    with hbreaks | ⟨text, added, hreturns⟩
  · obtain ⟨thread, hbroken⟩ := hbreaks scope rfl
    cases hrun.symm.trans hbroken
  · obtain ⟨after, hafter, hadds⟩ := hreturns scope rfl
    obtain ⟨rfl, rfl⟩ := Outcome.returned.inj (hrun.symm.trans hafter)
    have hadded : added.reverse = [.unknownVariable "who"] :=
      (hadds.errors.trans (List.append_nil _)).symm
    obtain rfl := List.reverse_eq_iff.1 hadded
    exact hreturns

end Session

end Fluent
