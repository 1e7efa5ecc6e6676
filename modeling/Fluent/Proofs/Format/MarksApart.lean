/-
# Runs with and without isolation

A formatter that isolates placed values and one that does not do the same in the same order, as long
as no text is read again whose marks matter: by a selector, or by a function.

* `Moment.ReadsMarks` : a text is read, and its marks matter;
* `Moment.Unmarked.step` : marks get into the text only where values are placed;
* `MarksApart.resolve` : where marks are not read, runs mirror each other.
-/
import Fluent.Proofs.Format.Moments
import Fluent.Proofs.Format.Reporting
import Fluent.Proofs.Format.Mirrors

namespace Fluent

open Resolving

/-! ## Formatters with and without isolation -/

/-- The formatter with isolation switched on or off. -/
def Formatter.withIsolating (isolating : Bool) (formatter : Formatter) : Formatter :=
  { formatter with settings := { formatter.settings with useIsolating := isolating } }

/-- A text is read at the moment, and its marks matter: without them a selector would choose another
variant by its key, or a function would make something else of its arguments. -/
inductive Moment.ReadsMarks (session : Session) (formatter : Formatter) : Moment → Prop
  | selector {room : Nat} {place : Place} {e : Expression} {scope mid : Scope} {depth : Depth}
      {s : Selection} {v : Value}
      (henter : scope.thread.depth.enter? formatter.limit = some depth)
      (he : e.peeled = .select s)
      (hselector : session.resolve room formatter (place.step 0) s.selector
        (scope.withDepth depth) = .returned (.value v) mid)
      (hkey : s.exactIndex? v.stripped ≠ s.exactIndex? v) :
      ReadsMarks session formatter ⟨room + 1, .expression place e, scope⟩
  | call {room : Nat} {place : Place} {e : Expression} {scope mid : Scope} {depth : Depth}
      {id : Identifier} {call : CallArguments} {f : Function} {values : List Value}
      (henter : scope.thread.depth.enter? formatter.limit = some depth)
      (he : e.peeled = .function id call) (hf : formatter.functions.find? id.name = some f)
      (hvalues : (session.level room formatter).arguments place 0 call.positional
        (scope.withDepth depth) = .returned (some values) mid)
      (hresult : f (values.map Value.stripped) (namedArguments call.named) ≠
        f values (namedArguments call.named)) :
      ReadsMarks session formatter ⟨room + 1, .expression place e, scope⟩

/-- The values that variables may have in the scope are no texts with marks. -/
structure Scope.Unmarked (scope : Scope) : Prop where
  args : scope.args.Unmarked
  localArgs : ∀ own, scope.localArgs = some own → own.Unmarked

/-- A scope that was kept is still unmarked. -/
theorem Scope.Keeps.unmarked {before after : Scope} (h : before.Keeps after)
    (hbefore : before.Unmarked) : after.Unmarked :=
  ⟨h.args ▸ hbefore.args, h.localArgs ▸ hbefore.localArgs⟩

/-- The arguments visible in an unmarked scope are unmarked. -/
theorem Scope.Unmarked.visibleArgs {scope : Scope} (h : scope.Unmarked) :
    scope.visibleArgs.Unmarked := by
  rw [Scope.visibleArgs]
  cases hlocal : scope.localArgs with
  | none => exact h.args
  | some own => exact h.localArgs own hlocal

/-- A message or an attribute without a pattern is missing for whoever looks into the catalog. -/
theorem Level.message_of_none (level level' : Level)
    (hcatalog : level'.formatter.catalog = level.formatter.catalog) {id : String}
    {attr : Option String} (h : level.formatter.catalog.messagePattern? id attr = none) :
    ∃ error label, (label = id ∨ label = referenceLabel id attr) ∧
      level.message id attr = failed error label ∧ level'.message id attr = failed error label := by
  unfold Catalog.messagePattern? at h
  unfold Level.message
  rw [hcatalog]
  cases hm : level.formatter.catalog.message? id with
  | none => exact ⟨_, _, .inl rfl, rfl, rfl⟩
  | some found =>
    rw [hm] at h
    cases attr with
    | none =>
      dsimp only at h ⊢
      rw [h]
      exact ⟨_, _, .inl rfl, rfl, rfl⟩
    | some name =>
      dsimp only at h ⊢
      rw [Option.map_eq_none_iff.1 h]
      exact ⟨_, _, .inr rfl, rfl, rfl⟩

/-- So is a term. -/
theorem Level.term_of_none (level level' : Level)
    (hcatalog : level'.formatter.catalog = level.formatter.catalog) {id : String}
    {attr : Option String} (h : level.formatter.catalog.termPattern? id attr = none)
    (arguments : Option CallArguments) :
    ∃ error label, (label = "-" ++ id ∨ label = "-" ++ referenceLabel id attr) ∧
      level.term id attr arguments = failed error label ∧
      level'.term id attr arguments = failed error label := by
  unfold Catalog.termPattern? at h
  unfold Level.term
  rw [hcatalog]
  cases ht : level.formatter.catalog.term? id with
  | none => exact ⟨_, _, .inl rfl, rfl, rfl⟩
  | some found =>
    rw [ht] at h
    cases attr with
    | none => cases h
    | some name =>
      dsimp only at h ⊢
      rw [Option.map_eq_none_iff.1 h]
      exact ⟨_, _, .inr rfl, rfl, rfl⟩

/-- No function of the table makes a text with marks. -/
def FunctionTable.Unmarked (table : FunctionTable) : Prop :=
  ∀ name f, table.find? name = some f → ∀ positional named v, f positional named = .value v →
    v.Unmarked

/-- At the moment no text that is at hand holds marks: neither in the catalog and in the task nor in
the scope. -/
structure Moment.Unmarked (formatter : Formatter) (m : Moment) : Prop where
  catalog : formatter.catalog.Unmarked
  texts : ∀ x ∈ m.task.subtrees, x.Unmarked
  label : ∀ place label p, m.task = .pattern place label p → Fluent.Unmarked label.toList
  scope : m.scope.Unmarked

namespace Moment.Unmarked

variable {session : Session} {formatter : Formatter}

/-- The texts of the expression itself are unmarked. -/
theorem ownTexts {room : Nat} {place : Place} {e inner : Expression} {scope : Scope}
    (h : Moment.Unmarked formatter ⟨room, .expression place e, scope⟩) (he : e.peeled = inner) :
    ∀ text ∈ inner.ownTexts, Fluent.Unmarked text.toList :=
  he ▸ h.texts _ e.peeled_mem_subtrees

/-- At the moments that follow the texts are unmarked as well. -/
theorem step {m next : Moment} (h : m.Unmarked formatter)
    (hstep : Starts session formatter m next) : next.Unmarked formatter where
  catalog := h.catalog
  texts := hstep.subtrees h.catalog h.texts
  label := by
    cases hstep with
    | message _ he =>
      rintro _ _ _ ⟨⟩
      have hown := h.ownTexts he
      exact unmarked_referenceLabel (hown _ List.mem_cons_self)
        fun name hname => hown name (List.mem_cons_of_mem _ hname)
    | term _ he =>
      rintro _ _ _ ⟨⟩
      have hown := h.ownTexts he
      exact unmarked_string_append (by decide) (unmarked_referenceLabel (hown _ List.mem_cons_self)
        fun name hname => hown name (List.mem_cons_of_mem _ (List.mem_append_left _ hname)))
    | variant =>
      rintro _ _ _ ⟨⟩
      decide
    | call | selector | elements | text | placeable | following | argument | nextArgument =>
      exact nofun
  scope := by
    cases hstep with
    | message | call | selector => exact ⟨h.scope.args, h.scope.localArgs⟩
    | @term _ _ _ _ _ _ _ arguments _ _ he =>
      refine ⟨h.scope.args, ?_⟩
      -- within a term only the arguments of the reference are visible
      rintro own ⟨⟩
      cases arguments with
      | none => exact Arguments.unmarked_empty
      | some call =>
        have hown := h.ownTexts he
        exact unmarked_namedArguments fun text htext =>
          hown text (List.mem_cons_of_mem _ (List.mem_append_right _ htext))
    | variant _ _ hselector hindex =>
      -- the scope has gone through the selector, which keeps the arguments
      exact ((session.frames_resolve _ _ _ _ _ _ _ hselector).trans
        (session.frames_indexAfter _ _ _ _ _ _ _ hindex)).unmarked ⟨h.scope.args, h.scope.localArgs⟩
    | elements | text | placeable | argument => exact ⟨h.scope.args, h.scope.localArgs⟩
    | following he htext =>
      exact ((session.frames_resolve _ _ _ _ _ _ _ he).trans
        (congruence_frames.text _ _ _ _ htext)).unmarked h.scope
    | nextArgument he => exact (session.frames_resolve _ _ _ _ _ _ _ he).unmarked h.scope

end Moment.Unmarked

/-! ## Runs -/

/-- At the moment all texts are unmarked, and there and at whatever follows marks are not read. -/
structure MarksApart (session : Session) (formatter : Formatter) (m : Moment) : Prop where
  unmarked : m.Unmarked formatter
  reads : ∀ next, Relation.ReflTransGen (Starts session formatter) m next →
    ¬next.ReadsMarks session formatter

namespace MarksApart

variable {session session' : Session} {formatter : Formatter}

/-- What a moment leads to is apart from marks as well. -/
theorem step {m next : Moment} (h : MarksApart session formatter m)
    (hstep : Starts session formatter m next) : MarksApart session formatter next :=
  ⟨h.unmarked.step hstep, fun last hlast => h.reads last (.head hstep hlast)⟩

/-- With the given room, expressions mirror each other with and without isolation. -/
def AtRoom (session session' : Session) (formatter : Formatter) (room : Nat) : Prop :=
  ∀ place e scope, MarksApart session formatter ⟨room, .expression place e, scope⟩ →
    Mirrors Resolved.stripped (session.resolve room formatter place e)
      (session'.resolve room (formatter.withIsolating false) place e) scope

variable {room : Nat} (hroom : AtRoom session session' formatter room)
include hroom

/-- The elements of a pattern mirror each other, by induction on those left. -/
theorem elements (isolating : Bool) (place : Place) (list : List PatternElement) (index : Nat)
    (scope : Scope)
    (h : MarksApart session formatter ⟨room, .elements isolating place index list, scope⟩) :
    Mirrors stripIsolates ((session.level room formatter).elements isolating place index list)
      ((session'.level room (formatter.withIsolating false)).elements false place index list)
      scope := by
  induction list generalizing index scope with
  | nil => exact mirrors_pure rfl
  | cons element rest ih =>
    cases element with
    | text value =>
      have hvalue : Unmarked value.toList :=
        h.unmarked.texts (.text value) List.mem_cons_self value List.mem_cons_self
      refine (ih _ _ (h.step .text)).map fun texts => ?_
      rw [stripIsolates_append, stripIsolates_eq_self_iff.2 hvalue]
    | placeable e =>
      refine (hroom _ _ _ (h.step .placeable)).bind fun result mid he => ?_
      refine (mirrors_text result).bind fun text written htext => ?_
      refine (ih _ _ (h.step (.following he htext))).map fun texts => ?_
      rw [stripIsolates_append, stripIsolates_isolated]
      rfl

/-- A pattern with isolation mirrors the same pattern without. -/
theorem pattern {place : Place} {label : String} {p : Pattern} {scope : Scope}
    (h : MarksApart session formatter ⟨room, .pattern place label p, scope⟩) :
    Mirrors stripIsolates ((session.level room formatter).pattern place label p)
      ((session'.level room (formatter.withIsolating false)).pattern place label p) scope := by
  refine (mirrors_self (isOnTrail place)).bind fun onTrail mid hmid => ?_
  obtain ⟨rfl, rfl⟩ := Outcome.returned.inj hmid
  by_cases hon : place ∈ scope.trail
  · have hlabel := unmarked_braced (h.unmarked.label place label p rfl)
    rw [id, decide_eq_true hon, if_pos rfl, if_pos rfl]
    exact (mirrors_self (record (.cyclic label))).bind fun _ _ _ =>
      mirrors_pure (stripIsolates_eq_self_iff.2 hlabel)
  · rw [id, decide_eq_false hon, if_neg Bool.false_ne_true, if_neg Bool.false_ne_true]
    exact (elements hroom _ _ _ _ _ (h.step (.elements hon))).withPlace

/-- Positional arguments mirror each other, by induction on those left. -/
theorem arguments (place : Place) (list : List Expression) (index : Nat) (scope : Scope)
    (h : MarksApart session formatter ⟨room, .arguments place index list, scope⟩) :
    Mirrors (Option.map (List.map Value.stripped))
      ((session.level room formatter).arguments place index list)
      ((session'.level room (formatter.withIsolating false)).arguments place index list) scope := by
  induction list generalizing index scope with
  | nil => exact mirrors_pure rfl
  | cons e rest ih =>
    refine (hroom _ _ _ (h.step .argument)).bind fun result mid he => ?_
    cases result with
    | placeholder label => exact mirrors_pure rfl
    | value v =>
      refine (ih _ _ (h.step (.nextArgument he))).map fun values => ?_
      cases values <;> rfl

section Expression

variable {place : Place} {e : Expression} {scope : Scope} {depth : Depth}
  (h : MarksApart session formatter ⟨room + 1, .expression place e, scope⟩)
  (henter : scope.thread.depth.enter? formatter.limit = some depth)
include h henter

theorem message {id : Identifier} {attr : Option Identifier} (he : e.peeled = .message id attr) :
    Mirrors Resolved.stripped
      ((session.level room formatter).message id.name (attr.map (·.name)))
      ((session'.level room (formatter.withIsolating false)).message id.name (attr.map (·.name)))
      (scope.withDepth depth) := by
  have hown := h.unmarked.ownTexts he
  have hid := hown _ List.mem_cons_self
  have hlabel := unmarked_referenceLabel hid
    fun name hname => hown name (List.mem_cons_of_mem _ hname)
  rcases (session.level room formatter).message_cases id.name (attr.map (·.name)) with
    ⟨p, hp, heq⟩ | ⟨hnone, -⟩
  · rcases (session'.level room (formatter.withIsolating false)).message_cases id.name
      (attr.map (·.name)) with ⟨p', hp', heq'⟩ | ⟨hnone', -⟩
    · obtain rfl := Option.some.inj (hp.symm.trans hp')
      rw [heq, heq']
      exact (pattern hroom (h.step (.message henter he hp))).map Resolved.stripped_ofText
    · cases hp.symm.trans hnone'
  · obtain ⟨error, label, hkind, heq⟩ :=
      (session.level room formatter).message_of_none (session'.level room
        (formatter.withIsolating false)) rfl hnone
    rw [heq.1, heq.2]
    refine mirrors_failed error ?_
    rcases hkind with rfl | rfl
    · exact hid
    · exact hlabel

theorem term {id : Identifier} {attr : Option Identifier} {arguments : Option CallArguments}
    (he : e.peeled = .term id attr arguments) :
    Mirrors Resolved.stripped
      ((session.level room formatter).term id.name (attr.map (·.name)) arguments)
      ((session'.level room (formatter.withIsolating false)).term id.name (attr.map (·.name))
        arguments) (scope.withDepth depth) := by
  have hown := h.unmarked.ownTexts he
  have hid := hown _ List.mem_cons_self
  have hlabel := unmarked_referenceLabel hid
    fun name hname => hown name (List.mem_cons_of_mem _ (List.mem_append_left _ hname))
  rcases (session.level room formatter).term_cases id.name (attr.map (·.name)) arguments with
    ⟨p, hp, heq⟩ | ⟨hnone, -⟩
  · rcases (session'.level room (formatter.withIsolating false)).term_cases id.name
      (attr.map (·.name)) arguments with ⟨p', hp', heq'⟩ | ⟨hnone', -⟩
    · obtain rfl := Option.some.inj (hp.symm.trans hp')
      rw [heq, heq']
      exact (pattern hroom (h.step (.term henter he hp))).withLocalArgs.map Resolved.stripped_ofText
    · cases hp.symm.trans hnone'
  · obtain ⟨error, label, hkind, heq⟩ :=
      (session.level room formatter).term_of_none (session'.level room
        (formatter.withIsolating false)) rfl hnone arguments
    rw [heq.1, heq.2]
    refine mirrors_failed error ?_
    rcases hkind with rfl | rfl
    · exact unmarked_string_append (by decide) hid
    · exact unmarked_string_append (by decide) hlabel

/-- A function call mirrors itself without isolation: what it is given holds no marks to read. -/
theorem function (hplain : formatter.functions.IsPlain)
    (hfunctions : formatter.functions.Unmarked) {id : Identifier} {call : CallArguments}
    (he : e.peeled = .function id call) :
    Mirrors Resolved.stripped ((session.level room formatter).function place id.name call)
      ((session'.level room (formatter.withIsolating false)).function place id.name call)
      (scope.withDepth depth) := by
  have hown := h.unmarked.ownTexts he
  have hlabel : Unmarked (id.name ++ "()").toList :=
    unmarked_string_append (hown _ List.mem_cons_self) (by decide)
  cases hf : formatter.functions.find? id.name with
  | none =>
    rw [Level.function_of_unknown _ hf, Level.function_of_unknown _ hf]
    exact mirrors_failed _ hlabel
  | some f =>
    rw [Level.function_of_found _ hf, Level.function_of_found _ hf]
    refine (arguments hroom place call.positional 0 _ (h.step (.call henter he hf))).bind
      fun positional mid hvalues => ?_
    cases positional with
    | none => exact mirrors_pure (congrArg Resolved.placeholder (stripped_eq_self hlabel))
    | some values =>
      have hcall := hplain id.name f hf values (namedArguments call.named)
      -- the marks of the arguments do not matter, so the same comes of them
      have hsame : f (values.map Value.stripped) (namedArguments call.named) =
          f values (namedArguments call.named) :=
        of_not_not fun hresult => h.reads _ .refl (.call henter he hf hvalues hresult)
      show Mirrors Resolved.stripped
        ((session.level room formatter).run (f values (namedArguments call.named)) >>=
          Level.afterCall id.name)
        ((session'.level room (formatter.withIsolating false)).run
          (f (values.map Value.stripped) (namedArguments call.named)) >>=
          Level.afterCall id.name) mid
      rw [hsame]
      cases hresult : f values (namedArguments call.named) with
      | value v =>
        have hv := hfunctions id.name f hf values (namedArguments call.named) v hresult
        exact mirrors_pure (congrArg Resolved.value hv.stripped_eq)
      | failure error => exact mirrors_failed _ hlabel
      | breakOff => exact mirrors_failed _ hlabel
      | format =>
        rw [hresult] at hcall
        exact hcall.elim

/-- A selection mirrors itself without isolation: the selector's text holds no marks where it is
compared. -/
theorem select {s : Selection} (he : e.peeled = .select s) :
    Mirrors stripIsolates ((session.level room formatter).select place s)
      ((session'.level room (formatter.withIsolating false)).select place s)
      (scope.withDepth depth) := by
  rw [Level.select_eq, Level.select_eq]
  refine (hroom _ _ _ (h.step (.selector henter he))).bind fun result mid hresult => ?_
  -- the marks of the selector's value do not matter, so the same variant is chosen
  have hsame : (session'.level room (formatter.withIsolating false)).indexAfter s result.stripped =
      (session.level room formatter).indexAfter s result := by
    cases result with
    | placeholder label => rfl
    | value v =>
      have hkey : s.exactIndex? v.stripped = s.exactIndex? v :=
        of_not_not fun hkey => h.reads _ .refl (.selector henter he hresult hkey)
      show (session'.level room (formatter.withIsolating false)).variantIndex s v.stripped =
        (session.level room formatter).variantIndex s v
      unfold Level.variantIndex
      rw [hkey]
      cases v <;> rfl
  rw [hsame]
  refine (mirrors_self _).bind fun index chosen hindex => ?_
  refine (mirrors_self (ofOption s.variants[index]?)).bind fun v after hv => ?_
  cases hfound : s.variants[index]? with
  | none =>
    rw [hfound] at hv
    cases hv
  | some found =>
    rw [hfound] at hv
    obtain ⟨rfl, rfl⟩ := Outcome.returned.inj hv
    exact pattern hroom (h.step (.variant henter he hresult hindex hfound))

theorem expression (hplain : formatter.functions.IsPlain)
    (hfunctions : formatter.functions.Unmarked) :
    Mirrors Resolved.stripped ((session.level room formatter).expression place e.peeled)
      ((session'.level room (formatter.withIsolating false)).expression place e.peeled)
      (scope.withDepth depth) := by
  cases he : e.peeled with
  | string literal =>
    have hvalue : Unmarked literal.value.toList := h.unmarked.ownTexts he _ List.mem_cons_self
    exact mirrors_pure (congrArg (Resolved.value ∘ Value.string) (stripped_eq_self hvalue))
  | number literal => exact mirrors_pure rfl
  | var id =>
    have hlabel : Unmarked ("$" ++ id.name).toList :=
      unmarked_string_append (by decide) (h.unmarked.ownTexts he _ List.mem_cons_self)
    refine (mirrors_self (valueOf? id.name)).bind fun found mid hfound => ?_
    obtain ⟨hvalue, rfl⟩ := Outcome.returned.inj hfound
    cases found with
    | none => exact mirrors_failed _ hlabel
    | some v =>
      have hv := h.unmarked.scope.visibleArgs id.name v hvalue
      exact mirrors_pure (congrArg Resolved.value hv.stripped_eq)
  | message id attr => exact message hroom h henter he
  | term id attr arguments => exact term hroom h henter he
  | function id call => exact function hroom h henter hplain hfunctions he
  | select s => exact (select hroom h henter he).map Resolved.stripped_ofText
  | placeable inner => exact absurd he (e.peeled_ne_placeable inner)

end Expression

omit hroom in
/-- **Where marks are not read, runs with and without isolation mirror each other.** -/
theorem resolve (hplain : formatter.functions.IsPlain)
    (hfunctions : formatter.functions.Unmarked) (room : Nat) :
    AtRoom session session' formatter room := by
  induction room with
  | zero => exact fun place e scope _ => mirrors_failed _ (by decide)
  | succ room ih =>
    intro place e scope h
    refine mirrors_guarded (mirrors_failed _ (by decide)) fun depth henter => ?_
    exact expression ih h henter hplain hfunctions

end MarksApart

end Fluent
