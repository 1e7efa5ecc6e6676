/-
# The moments of a run

A run resolves expressions and patterns one inside the other.  Whenever one of them is started, the
run is at a moment: it has a task and a scope.  Which moments follow from a moment, and in which
scopes, is told by what has been resolved in between.

* `Starts` : the moments that the task of a moment leads to;
* `Starts.keeps` : what the scopes of two such moments have in common;
* `Starts.endsIn` : in a run that returns, all that was started returned, and its problems are kept.
-/
import Fluent.Proofs.Format.IdealFormat

namespace Fluent

open Resolving

/-! ## Moments -/

/-- What a run does next: it resolves an expression, a pattern, the elements of a pattern from one
on, or the arguments of a call from one on. -/
inductive Task
  | expression (place : Place) (e : Expression)
  | pattern (place : Place) (label : String) (p : Pattern)
  | elements (isolating : Bool) (place : Place) (index : Nat) (list : List PatternElement)
  | arguments (place : Place) (index : Nat) (list : List Expression)

/-- A task is started in a scope, with the given room below the limit. -/
structure Moment where
  room : Nat
  task : Task
  scope : Scope

/-- The place of the variant for what a selector resolved to. -/
def Level.indexAfter (level : Level) (selection : Selection) : Resolved → Resolving Nat
  | .placeholder _ => pure selection.defaultIndex
  | .value v => level.variantIndex selection v

/-- The text of the variant at an index. -/
def Level.variantText (level : Level) (place : Place) (selection : Selection) (index : Nat) :
    Resolving (List Char) := do
  let variant ← .ofOption selection.variants[index]?
  level.pattern (place.step (index + 1)) "select" variant.value

/-- A selection is its selector, the search for a variant and the text of that variant. -/
theorem Level.select_eq (level : Level) (place : Place) (selection : Selection) :
    level.select place selection = level.resolve (place.step 0) selection.selector >>= fun result =>
      level.indexAfter selection result >>= level.variantText place selection := by
  unfold Level.select
  congr
  funext result
  cases result with
  | placeholder label => rfl
  | value v => rfl

/-- The second moment follows from the first one.  Resolving an expression takes a level, and may
lead to the pattern that it refers to, to the arguments of a call, or to a selector and then to the
chosen variant.  Resolving a pattern that is not on the trail leads to its elements, one after the
other, with the pattern on the trail. -/
inductive Starts (session : Session) (formatter : Formatter) : Moment → Moment → Prop
  | message {room : Nat} {place : Place} {e : Expression} {scope : Scope} {depth : Depth}
      {id : Identifier} {attr : Option Identifier} {p : Pattern}
      (henter : scope.thread.depth.enter? formatter.limit = some depth)
      (he : e.peeled = .message id attr)
      (hp : formatter.catalog.messagePattern? id.name (attr.map (·.name)) = some p) :
      Starts session formatter ⟨room + 1, .expression place e, scope⟩
        ⟨room, .pattern ⟨.message id.name (attr.map (·.name)), []⟩
          (referenceLabel id.name (attr.map (·.name))) p, scope.withDepth depth⟩
  | term {room : Nat} {place : Place} {e : Expression} {scope : Scope} {depth : Depth}
      {id : Identifier} {attr : Option Identifier} {arguments : Option CallArguments} {p : Pattern}
      (henter : scope.thread.depth.enter? formatter.limit = some depth)
      (he : e.peeled = .term id attr arguments)
      (hp : formatter.catalog.termPattern? id.name (attr.map (·.name)) = some p) :
      Starts session formatter ⟨room + 1, .expression place e, scope⟩
        ⟨room, .pattern ⟨.term id.name (attr.map (·.name)), []⟩
          ("-" ++ referenceLabel id.name (attr.map (·.name))) p,
          { scope.withDepth depth with localArgs := some (termArguments arguments) }⟩
  | call {room : Nat} {place : Place} {e : Expression} {scope : Scope} {depth : Depth}
      {id : Identifier} {call : CallArguments} {f : Function}
      (henter : scope.thread.depth.enter? formatter.limit = some depth)
      (he : e.peeled = .function id call) (hf : formatter.functions.find? id.name = some f) :
      Starts session formatter ⟨room + 1, .expression place e, scope⟩
        ⟨room, .arguments place 0 call.positional, scope.withDepth depth⟩
  | selector {room : Nat} {place : Place} {e : Expression} {scope : Scope} {depth : Depth}
      {s : Selection} (henter : scope.thread.depth.enter? formatter.limit = some depth)
      (he : e.peeled = .select s) :
      Starts session formatter ⟨room + 1, .expression place e, scope⟩
        ⟨room, .expression (place.step 0) s.selector, scope.withDepth depth⟩
  | variant {room : Nat} {place : Place} {e : Expression} {scope mid chosen : Scope} {depth : Depth}
      {s : Selection} {result : Resolved} {index : Nat} {v : Variant}
      (henter : scope.thread.depth.enter? formatter.limit = some depth)
      (he : e.peeled = .select s)
      (hselector : session.resolve room formatter (place.step 0) s.selector
        (scope.withDepth depth) = .returned result mid)
      (hindex : (session.level room formatter).indexAfter s result mid = .returned index chosen)
      (hv : s.variants[index]? = some v) :
      Starts session formatter ⟨room + 1, .expression place e, scope⟩
        ⟨room, .pattern (place.step (index + 1)) "select" v.value, chosen⟩
  | elements {room : Nat} {place : Place} {label : String} {p : Pattern} {scope : Scope}
      (hnew : place ∉ scope.trail) :
      Starts session formatter ⟨room, .pattern place label p, scope⟩
        ⟨room, .elements (formatter.isolates p) place 0 p,
          { scope with trail := place :: scope.trail }⟩
  | text {room : Nat} {isolating : Bool} {place : Place} {index : Nat} {value : String}
      {rest : List PatternElement} {scope : Scope} :
      Starts session formatter ⟨room, .elements isolating place index (.text value :: rest), scope⟩
        ⟨room, .elements isolating place (index + 1) rest, scope⟩
  | placeable {room : Nat} {isolating : Bool} {place : Place} {index : Nat} {e : Expression}
      {rest : List PatternElement} {scope : Scope} :
      Starts session formatter
        ⟨room, .elements isolating place index (.placeable e :: rest), scope⟩
        ⟨room, .expression (place.step index) e, scope⟩
  | following {room : Nat} {isolating : Bool} {place : Place} {index : Nat} {e : Expression}
      {rest : List PatternElement} {scope mid written : Scope} {result : Resolved}
      {text : List Char}
      (he : session.resolve room formatter (place.step index) e scope = .returned result mid)
      (htext : result.text mid = .returned text written) :
      Starts session formatter
        ⟨room, .elements isolating place index (.placeable e :: rest), scope⟩
        ⟨room, .elements isolating place (index + 1) rest, written⟩
  | argument {room : Nat} {place : Place} {index : Nat} {e : Expression} {rest : List Expression}
      {scope : Scope} :
      Starts session formatter ⟨room, .arguments place index (e :: rest), scope⟩
        ⟨room, .expression (place.step index) e, scope⟩
  | nextArgument {room : Nat} {place : Place} {index : Nat} {e : Expression}
      {rest : List Expression} {scope mid : Scope} {v : Value}
      (he : session.resolve room formatter (place.step index) e scope = .returned (.value v) mid) :
      Starts session formatter ⟨room, .arguments place index (e :: rest), scope⟩
        ⟨room, .arguments place (index + 1) rest, mid⟩

/-! ## What the scopes have in common -/

theorem Session.frames_level (session : Session) (room : Nat) (formatter : Formatter) :
    (session.level room formatter).Related (fun m _ => Frames m) (session.level room formatter) :=
  ⟨rfl, session.frames_resolve room formatter,
    fun call _ => session.frames_run room formatter call⟩

theorem Session.frames_indexAfter (session : Session) (room : Nat) (formatter : Formatter)
    (selection : Selection) (result : Resolved) :
    Frames ((session.level room formatter).indexAfter selection result) := by
  cases result with
  | placeholder label => exact frames_pure _
  | value v =>
    exact (session.frames_level room formatter).variantIndex congruence_frames selection v

namespace Moment

/-- The trail while the task runs: a pattern is on it itself. -/
def innerTrail (m : Moment) : List Place :=
  match m.task with
  | .pattern place _ _ => place :: m.scope.trail
  | _ => m.scope.trail

/-- The depth while the task runs: an expression takes a level. -/
def innerDepth (m : Moment) : Nat :=
  match m.task with
  | .expression .. => m.scope.thread.depth.current + 1
  | _ => m.scope.thread.depth.current

end Moment

/-- A moment that follows is on the trail and at the depth of the task that leads to it; it has less
room if it is deeper. -/
theorem Starts.keeps {session : Session} {formatter : Formatter} {m next : Moment}
    (h : Starts session formatter m next) :
    next.scope.trail = m.innerTrail ∧ next.scope.thread.depth.current = m.innerDepth ∧
      next.room + next.scope.thread.depth.current = m.room + m.scope.thread.depth.current := by
  have hentered : ∀ {scope : Scope} {depth : Depth},
      scope.thread.depth.enter? formatter.limit = some depth →
        depth.current = scope.thread.depth.current + 1 :=
    fun he => (Depth.enter?_eq_some_iff.1 he).2.1
  cases h with
  | message henter | term henter | call henter | selector henter =>
    have hdepth := hentered henter
    exact ⟨rfl, hdepth, by simp only [Scope.withDepth]; omega⟩
  | variant henter _ hselector hindex =>
    -- the selector and the choice leave the scope as it was
    have hkeeps := (session.frames_resolve _ _ _ _ _ _ _ hselector).trans
      (session.frames_indexAfter _ _ _ _ _ _ _ hindex)
    have hdepth := hkeeps.depth.trans (hentered henter)
    exact ⟨hkeeps.trail, hdepth, by dsimp only; omega⟩
  | elements | text | placeable | argument => exact ⟨rfl, rfl, rfl⟩
  | following he htext =>
    have hkeeps := (session.frames_resolve _ _ _ _ _ _ _ he).trans
      (congruence_frames.text _ _ _ _ htext)
    exact ⟨hkeeps.trail, hkeeps.depth, congrArg _ hkeeps.depth⟩
  | nextArgument he =>
    have hkeeps := session.frames_resolve _ _ _ _ _ _ _ he
    exact ⟨hkeeps.trail, hkeeps.depth, congrArg _ hkeeps.depth⟩

/-! ## Moments of a run that returns -/

namespace Resolving

variable {α : Type} {body : Resolving α} {scope after : Scope} {a : α}

/-- A level that was entered returns as its body does, with the same problems. -/
theorem guarded_eq_returned {limit : Nat} {atLimit : Resolving α} {depth : Depth}
    (he : scope.thread.depth.enter? limit = some depth)
    (h : guarded limit atLimit body scope = .returned a after) :
    ∃ inner, body (scope.withDepth depth) = .returned a inner ∧ inner.errors = after.errors := by
  rw [guarded_of_entered he] at h
  obtain ⟨inner, hbody, rfl⟩ := Outcome.leaving_eq_returned.1 h
  exact ⟨inner, hbody, rfl⟩

/-- What is returned with arguments of its own was returned by the body. -/
theorem withLocalArgs_eq_returned {args : Arguments}
    (h : withLocalArgs args body scope = .returned a after) :
    ∃ inner, body { scope with localArgs := some args } = .returned a inner ∧
      inner.errors = after.errors := by
  rw [withLocalArgs_eq] at h
  obtain ⟨inner, hbody, rfl⟩ := Outcome.leaving_eq_returned.1 h
  exact ⟨inner, hbody, rfl⟩

/-- What is returned under a place was returned by the body. -/
theorem withPlace_eq_returned {place : Place} (h : withPlace place body scope = .returned a after) :
    ∃ inner, body { scope with trail := place :: scope.trail } = .returned a inner ∧
      inner.errors = after.errors := by
  rw [withPlace_eq] at h
  obtain ⟨inner, hbody, rfl⟩ := Outcome.leaving_eq_returned.1 h
  exact ⟨inner, hbody, rfl⟩

/-- A resolution that keeps scopes keeps the one it returned from. -/
theorem Frames.apply (hframes : Frames body) (h : body scope = .returned a after) :
    scope.Keeps after :=
  hframes scope a after h

/-- A mapped result was returned before it was mapped. -/
theorem map_eq_returned {β : Type} {f : α → β} {b : β}
    (h : (f <$> body) scope = .returned b after) : ∃ a, body scope = .returned a after := by
  obtain ⟨a, mid, hbody, ⟨⟩⟩ := bind_eq_returned.1 h
  exact ⟨a, hbody⟩

end Resolving

/-- The task of the moment returns, with the given scope. -/
def Moment.EndsIn (session : Session) (formatter : Formatter) (m : Moment) (after : Scope) : Prop :=
  match m.task with
  | .expression place e =>
    ∃ r, session.resolve m.room formatter place e m.scope = .returned r after
  | .pattern place label p =>
    ∃ r, (session.level m.room formatter).pattern place label p m.scope = .returned r after
  | .elements isolating place index list => ∃ r,
    (session.level m.room formatter).elements isolating place index list m.scope = .returned r after
  | .arguments place index list =>
    ∃ r, (session.level m.room formatter).arguments place index list m.scope = .returned r after

section Returns

variable {session : Session} {formatter : Formatter}

/-- An expression that entered a level returns as what it holds does at that level. -/
theorem expression_eq_returned {room : Nat} {place : Place} {e inner : Expression}
    {scope after : Scope} {depth : Depth} {r : Resolved}
    (henter : scope.thread.depth.enter? formatter.limit = some depth) (he : e.peeled = inner)
    (h : session.resolve (room + 1) formatter place e scope = .returned r after) :
    ∃ mid, (session.level room formatter).expression place inner (scope.withDepth depth) =
      .returned r mid ∧ mid.errors = after.errors := by
  subst he
  exact guarded_eq_returned henter h

/-- **What follows in a run that returns returns as well**, and its problems are kept. -/
theorem Starts.endsIn {m next : Moment} (h : Starts session formatter m next) {after : Scope}
    (hm : m.EndsIn session formatter after) :
    ∃ inner, next.EndsIn session formatter inner ∧ inner.errors <:+ after.errors := by
  cases h with
  | @message room place e scope depth id attr p henter he hp =>
    obtain ⟨r, hr⟩ := hm
    obtain ⟨mid, hmid, herrors⟩ := expression_eq_returned henter he hr
    rw [← herrors]
    rcases (session.level room formatter).message_cases id.name (attr.map (·.name)) with
      ⟨p', hp', heq⟩ | ⟨hnone, -⟩
    · obtain rfl := Option.some.inj (hp.symm.trans hp')
      rw [Level.expression, heq] at hmid
      exact ⟨mid, map_eq_returned hmid, List.suffix_refl _⟩
    · cases hnone.symm.trans hp
  | @term room place e scope depth id attr arguments p henter he hp =>
    obtain ⟨r, hr⟩ := hm
    obtain ⟨mid, hmid, herrors⟩ := expression_eq_returned henter he hr
    rw [← herrors]
    rcases (session.level room formatter).term_cases id.name (attr.map (·.name)) arguments with
      ⟨p', hp', heq⟩ | ⟨hnone, -⟩
    · obtain rfl := Option.some.inj (hp.symm.trans hp')
      rw [Level.expression, heq] at hmid
      obtain ⟨text, htext⟩ := map_eq_returned hmid
      obtain ⟨inner, hinner, hsame⟩ := withLocalArgs_eq_returned htext
      exact ⟨inner, ⟨text, hinner⟩, hsame ▸ List.suffix_refl _⟩
    · cases hnone.symm.trans hp
  | @call room place e scope depth id call f henter he hf =>
    obtain ⟨r, hr⟩ := hm
    obtain ⟨mid, hmid, herrors⟩ := expression_eq_returned henter he hr
    rw [← herrors]
    have hfound : (session.level room formatter).formatter.functions.find? id.name = some f := hf
    -- only the arguments are followed here; what the function does with them keeps the scope
    simp only [Level.expression, Level.function, hfound] at hmid
    obtain ⟨positional, inner, hinner, hrest⟩ := bind_eq_returned.1 hmid
    refine ⟨inner, ⟨positional, hinner⟩, Scope.Keeps.errors (Frames.apply ?_ hrest)⟩
    cases positional with
    | none => exact frames_pure _
    | some values =>
      refine frames_bind (session.frames_run room formatter _) fun result => ?_
      cases result with
      | value v => exact frames_pure _
      | failure | brokenOff => exact congruence_frames.failed _ _
  | @selector room place e scope depth s henter he =>
    obtain ⟨r, hr⟩ := hm
    obtain ⟨mid, hmid, herrors⟩ := expression_eq_returned henter he hr
    rw [← herrors]
    obtain ⟨text, htext⟩ := map_eq_returned hmid
    rw [Level.select_eq] at htext
    obtain ⟨result, inner, hinner, hrest⟩ := bind_eq_returned.1 htext
    -- the selector ends where the search for a variant starts, which loses no problem
    have hframes : Frames ((session.level room formatter).indexAfter s result >>=
        (session.level room formatter).variantText place s) :=
      frames_bind (session.frames_indexAfter room formatter s result) fun index =>
        frames_bind (congruence_frames.ofOption _) fun v =>
          (session.frames_level room formatter).pattern congruence_frames _ _ _
    exact ⟨inner, ⟨result, hinner⟩, (hframes _ _ _ hrest).errors⟩
  | @variant room place e scope mid chosen depth s result index v henter he hselector hindex hv =>
    obtain ⟨r, hr⟩ := hm
    obtain ⟨inner, hinner, herrors⟩ := expression_eq_returned henter he hr
    rw [← herrors]
    obtain ⟨text, htext⟩ := map_eq_returned hinner
    rw [Level.select_eq] at htext
    -- selector and search returned as given, so the rest of the selection is the variant
    have hafter := (bind_of_returned hselector).symm.trans htext
    rw [bind_of_returned hindex, Level.variantText, hv] at hafter
    exact ⟨inner, ⟨text, hafter⟩, List.suffix_refl _⟩
  | @elements room place label p scope hnew =>
    obtain ⟨text, htext⟩ := hm
    -- the pattern is not on the trail, so its elements are resolved
    have htrail : isOnTrail place scope = .returned false scope := by simp [isOnTrail, hnew]
    rw [Level.pattern, bind_of_returned htrail] at htext
    obtain ⟨inner, hinner, herrors⟩ := withPlace_eq_returned htext
    exact ⟨inner, ⟨text, hinner⟩, herrors ▸ List.suffix_refl _⟩
  | text =>
    obtain ⟨r, hr⟩ := hm
    obtain ⟨texts, _, hrest, ⟨⟩⟩ := bind_eq_returned.1 hr
    exact ⟨_, ⟨texts, hrest⟩, List.suffix_refl _⟩
  | @placeable room isolating place index e rest scope =>
    obtain ⟨r, hr⟩ := hm
    obtain ⟨result, inner, hinner, hrest⟩ := bind_eq_returned.1 hr
    refine ⟨inner, ⟨result, hinner⟩, Scope.Keeps.errors (frames_bind ?_ (fun _ => ?_) _ _ _ hrest)⟩
    · exact congruence_frames.text result
    · exact frames_bind ((session.frames_level room formatter).elements congruence_frames _ _ _ _)
        fun _ => frames_pure _
  | following he htext =>
    obtain ⟨r, hr⟩ := hm
    rw [Level.elements] at hr
    have hwritten := (bind_of_returned htext).symm.trans ((bind_of_returned he).symm.trans hr)
    obtain ⟨texts, _, hrest, ⟨⟩⟩ := bind_eq_returned.1 hwritten
    exact ⟨_, ⟨texts, hrest⟩, List.suffix_refl _⟩
  | @argument room place index e rest scope =>
    obtain ⟨r, hr⟩ := hm
    obtain ⟨result, inner, hinner, hrest⟩ := bind_eq_returned.1 hr
    refine ⟨inner, ⟨result, hinner⟩, Scope.Keeps.errors (Frames.apply ?_ hrest)⟩
    cases result with
    | placeholder label => exact frames_pure _
    | value v =>
      exact frames_bind
        ((session.frames_level room formatter).arguments congruence_frames _ _ _)
        fun _ => frames_pure _
  | nextArgument he =>
    obtain ⟨r, hr⟩ := hm
    rw [Level.arguments] at hr
    obtain ⟨values, hvalues⟩ := map_eq_returned ((bind_of_returned he).symm.trans hr)
    exact ⟨_, ⟨values, hvalues⟩, List.suffix_refl _⟩

end Returns

end Fluent
