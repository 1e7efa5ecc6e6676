/-
# Relations that resolving keeps

What a level does is put together from a few steps.  A relation between resolutions that these
steps keep is kept by all that a level does, so that what is claimed of every resolution need only
be shown of the steps.

* `Resolving.Congruence` : the steps keep a relation;
* `Level.Related.expression`, `Level.Related.target` : then levels keep it.
-/
import Fluent.Format.Resolve

namespace Fluent

/-- The steps of resolving keep the relation. -/
structure Resolving.Congruence (R : {α : Type} → Resolving α → Resolving α → Prop) : Prop where
  pure : ∀ {α : Type} (a : α), R (Pure.pure a : Resolving α) (Pure.pure a)
  bind : ∀ {α β : Type} {first first' : Resolving α} {next next' : α → Resolving β},
    R first first' → (∀ a, R (next a) (next' a)) → R (first >>= next) (first' >>= next')
  breakOff : ∀ {α : Type}, R (Resolving.breakOff : Resolving α) Resolving.breakOff
  record : ∀ error, R (Resolving.record error) (Resolving.record error)
  valueOf? : ∀ name, R (Resolving.valueOf? name) (Resolving.valueOf? name)
  isOnTrail : ∀ place, R (Resolving.isOnTrail place) (Resolving.isOnTrail place)
  withLocalArgs : ∀ {α : Type} (args : Arguments) {body body' : Resolving α},
    R body body' → R (Resolving.withLocalArgs args body) (Resolving.withLocalArgs args body')
  withPlace : ∀ {α : Type} (place : Place) {body body' : Resolving α},
    R body body' → R (Resolving.withPlace place body) (Resolving.withPlace place body')

namespace Resolving.Congruence

variable {R : {α : Type} → Resolving α → Resolving α → Prop} (hR : Congruence R)
include hR

/-- Mapping the result keeps two programs related. -/
theorem map {α β : Type} {m m' : Resolving α} (f : α → β) (h : R m m') : R (f <$> m) (f <$> m') :=
  hR.bind h fun a => hR.pure (f a)

/-- A possible break-off that reads nothing is related to itself. -/
theorem ofOption {α : Type} (a : Option α) : R (Resolving.ofOption a) (Resolving.ofOption a) := by
  cases a with
  | none => exact hR.breakOff
  | some a => exact hR.pure a

/-- Reading off the text of a result is related to itself, whatever the result is. -/
theorem text (result : Resolved) : R result.text result.text := by
  cases result with
  | value v => exact hR.ofOption _
  | placeholder label => exact hR.pure _

/-- An error with its placeholder is related to itself. -/
theorem failed (error : ResolverError) (label : String) :
    R (Fluent.failed error label) (Fluent.failed error label) :=
  hR.bind (hR.record error) fun _ => hR.pure _

/-- The value of a variable asks for nothing one level down, so it is related to itself. -/
theorem variableValue (name : String) :
    R (Level.variableValue name) (Level.variableValue name) := by
  refine hR.bind (hR.valueOf? name) fun value => ?_
  cases value with
  | none => exact hR.failed _ _
  | some value => exact hR.pure _

end Resolving.Congruence

namespace Level

/-- A function of the level's formatter makes the call. -/
def Makes (level : Level) (call : Call) : Prop :=
  ∃ name f positional named, level.formatter.functions.find? name = some f ∧
    call = f positional named

/-- Two levels whose next levels are related.  Their formatters are the same, apart from the limit,
which only the next levels see. -/
structure Related (R : {α : Type} → Resolving α → Resolving α → Prop) (level level' : Level) :
    Prop where
  formatter : level'.formatter = level.formatter.withLimit level'.formatter.limit
  resolve : ∀ place e, R (level.resolve place e) (level'.resolve place e)
  run : ∀ call, level.Makes call → R (level.run call) (level'.run call)

namespace Related

variable {R : {α : Type} → Resolving α → Resolving α → Prop} {level level' : Level}

/-- The levels look into the same catalog. -/
theorem catalog (h : level.Related R level') :
    level'.formatter.catalog = level.formatter.catalog := by
  rw [h.formatter]
  rfl

/-- Related levels below give related pattern elements, by induction on the elements left. -/
theorem elements (h : level.Related R level') (hR : Resolving.Congruence R) (isolating : Bool)
    (place : Place) (list : List PatternElement) (index : Nat) :
    R (level.elements isolating place index list) (level'.elements isolating place index list) := by
  induction list generalizing index with
  | nil => exact hR.pure _
  | cons element rest ih =>
    cases element with
    | text value => exact hR.bind (ih _) fun _ => hR.pure _
    | placeable e =>
      exact hR.bind (h.resolve _ _) fun result =>
        hR.bind (hR.text result) fun _ => hR.bind (ih _) fun _ => hR.pure _

/-- Related levels below give a related pattern, the step of the induction on the levels. -/
theorem pattern (h : level.Related R level') (hR : Resolving.Congruence R) (place : Place)
    (label : String) (p : Pattern) :
    R (level.pattern place label p) (level'.pattern place label p) := by
  refine hR.bind (hR.isOnTrail place) fun onTrail => ?_
  cases onTrail with
  | true => exact hR.bind (hR.record _) fun _ => hR.pure _
  | false =>
    have hisolates : level'.isolates p = level.isolates p := by
      rw [isolates, isolates, h.formatter]
      rfl
    rw [if_neg Bool.false_ne_true, if_neg Bool.false_ne_true, hisolates]
    exact hR.withPlace place (h.elements hR _ _ _ _)

/-- Related levels below give a related message reference. -/
theorem message (h : level.Related R level') (hR : Resolving.Congruence R) (id : String)
    (attr : Option String) : R (level.message id attr) (level'.message id attr) := by
  unfold Level.message
  rw [h.catalog]
  split
  · exact hR.failed _ _
  · split
    · split
      · exact hR.map _ (h.pattern hR _ _ _)
      · exact hR.failed _ _
    · split
      · exact hR.map _ (h.pattern hR _ _ _)
      · exact hR.failed _ _

/-- Related levels below give a related term reference, call arguments included. -/
theorem term (h : level.Related R level') (hR : Resolving.Congruence R) (id : String)
    (attr : Option String) (arguments : Option CallArguments) :
    R (level.term id attr arguments) (level'.term id attr arguments) := by
  unfold Level.term
  dsimp only
  rw [h.catalog]
  split
  · exact hR.failed _ _
  · split
    · split
      · exact hR.map _ (hR.withLocalArgs _ (h.pattern hR _ _ _))
      · exact hR.failed _ _
    · exact hR.map _ (hR.withLocalArgs _ (h.pattern hR _ _ _))

/-- Related levels below give related positional arguments. -/
theorem arguments (h : level.Related R level') (hR : Resolving.Congruence R) (place : Place)
    (list : List Expression) (index : Nat) :
    R (level.arguments place index list) (level'.arguments place index list) := by
  induction list generalizing index with
  | nil => exact hR.pure _
  | cons e rest ih =>
    refine hR.bind (h.resolve _ _) fun result => ?_
    cases result with
    | value v => exact hR.bind (ih _) fun _ => hR.pure _
    | placeholder label => exact hR.pure _

/-- Related levels below give a related function call. -/
theorem function (h : level.Related R level') (hR : Resolving.Congruence R) (place : Place)
    (name : String) (call : CallArguments) :
    R (level.function place name call) (level'.function place name call) := by
  have hfunctions : level'.formatter.functions = level.formatter.functions := by
    rw [h.formatter]
    rfl
  unfold Level.function
  dsimp only
  rw [hfunctions]
  split
  · exact hR.failed _ _
  · rename_i f hf
    refine hR.bind (h.arguments hR _ _ _) fun positional => ?_
    cases positional with
    | none => exact hR.pure _
    | some positional =>
      refine hR.bind (h.run _ ⟨name, f, positional, _, hf, rfl⟩) fun result => ?_
      cases result with
      | value v => exact hR.pure _
      | failure error => exact hR.failed _ _
      | brokenOff => exact hR.failed _ _

/-- Related levels choose a related variant: they have the same plural rules and locale. -/
theorem variantIndex (h : level.Related R level') (hR : Resolving.Congruence R)
    (selection : Selection) (value : Value) :
    R (level.variantIndex selection value) (level'.variantIndex selection value) := by
  have hplurals : level'.formatter.plurals = level.formatter.plurals := by
    rw [h.formatter]
    rfl
  have hlocale : level'.formatter.locale = level.formatter.locale := by
    rw [h.formatter]
    rfl
  unfold Level.variantIndex
  rw [hplurals, hlocale]
  split
  · exact hR.pure _
  · split
    · exact hR.bind (hR.ofOption _) fun _ => hR.pure _
    · exact hR.pure _

/-- Related levels below give a related select expression. -/
theorem select (h : level.Related R level') (hR : Resolving.Congruence R) (place : Place)
    (selection : Selection) : R (level.select place selection) (level'.select place selection) := by
  have hpattern : ∀ index, R
      (Resolving.ofOption selection.variants[index]? >>= fun variant =>
        level.pattern (place.step (index + 1)) "select" variant.value)
      (Resolving.ofOption selection.variants[index]? >>= fun variant =>
        level'.pattern (place.step (index + 1)) "select" variant.value) := fun index =>
    hR.bind (hR.ofOption _) fun _ => h.pattern hR _ _ _
  refine hR.bind (h.resolve _ _) fun result => ?_
  cases result with
  | value v => exact hR.bind (h.variantIndex hR selection v) hpattern
  | placeholder label => exact hR.bind (hR.pure _) hpattern

/-- Related levels below give a related expression, one case for each form. -/
theorem expression (h : level.Related R level') (hR : Resolving.Congruence R) (place : Place)
    (e : Expression) : R (level.expression place e) (level'.expression place e) := by
  cases e with
  | string literal => exact hR.pure _
  | number literal => exact hR.pure _
  | var id => exact hR.variableValue id.name
  | message id attr => exact h.message hR _ _
  | term id attr arguments => exact h.term hR _ _ _
  | function id arguments => exact h.function hR _ _ _
  | select selection => exact hR.map _ (h.select hR _ _)
  | placeable inner => exact h.resolve _ _

/-- Related levels below give a related target: what a run is asked for first. -/
theorem target (h : level.Related R level') (hR : Resolving.Congruence R) (t : Target) :
    R (level.target t) (level'.target t) := by
  cases t with
  | message id attr => exact h.message hR _ _
  | pattern p => exact hR.map _ (h.pattern hR _ _ _)

end Related

end Level

/-! ## The levels of a session -/

namespace Session

/-- What a formatter of a session does one level deeper, with the given room. -/
def level (session : Session) (room : Nat) (formatter : Formatter) : Level where
  formatter := formatter
  resolve := session.resolve room formatter
  ask n := session.formatAt room (session.formatter n)

end Session

end Fluent
