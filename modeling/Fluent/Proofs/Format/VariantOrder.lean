/-
# The order of variants

Variants may be written in any order as long as their keys are different: the same variant is
chosen, the selection comes to the same text, with the same problems, and so does all that holds it.

* `Level.Reordered.expression`, `Level.Reordered.target` : one level does the same with variants in
  another order;
* `Session.Reordered.format` : so the same is formatted;
* `Selection.order_irrelevant` : the order of the variants does not matter to a selection.
-/
import Fluent.Proofs.Format.Reordering
import Fluent.Proofs.Format.Reporting
import Fluent.Proofs.Format.TrailsApart

namespace Fluent

open Resolving

/-! ## Runs -/

/-- Two levels, the second one with the variants of some selections in another order. -/
structure Level.Reordered (level level' : Level) : Prop where
  formatter : level.formatter.Reordered level'.formatter
  resolve : ∀ {place trail place' trail' e e'}, PlacesAgree place trail place' trail' →
    e.Reordered e' → Alike trail trail' (level.resolve place e) (level'.resolve place' e')
  ask : level'.ask = level.ask

namespace Level.Reordered

variable {level level' : Level} (h : level.Reordered level') {place place' : Place}
  {trail trail' : List Place}
include h

/-- The elements of reordered patterns do the same on both trails, by induction on those left. -/
theorem elements {list list' : List PatternElement} (hlist : Pattern.Reordered list list')
    (hplaces : PlacesAgree place trail place' trail') (isolating : Bool) (index : Nat) :
    Alike trail trail' (level.elements isolating place index list)
      (level'.elements isolating place' index list') := by
  induction hlist generalizing index with
  | nil => exact alike_pure _
  | cons helement _ ih =>
    cases helement with
    | text value => exact (ih _).bind fun _ => alike_pure _
    | placeable he =>
      rw [Level.elements, Level.elements, he.needsIsolation_eq]
      exact (h.resolve (hplaces.step index index) he).bind fun result =>
        (alike_text result).bind fun _ => (ih _).bind fun _ => alike_pure _

/-- Reordered patterns are isolated alike. -/
theorem isolates_eq {p p' : Pattern} (hp : Pattern.Reordered p p') :
    level'.isolates p' = level.isolates p := by
  rw [isolates, isolates, h.formatter.rest, hp.length_eq]

/-- Patterns that are both on their trails, or else go onto them. -/
theorem pattern {p p' : Pattern} (hp : Pattern.Reordered p p')
    (hon : place ∈ trail ↔ place' ∈ trail')
    (hnew : place ∉ trail → PlacesAgree place (place :: trail) place' (place' :: trail'))
    (label : String) :
    Alike trail trail' (level.pattern place label p) (level'.pattern place' label p') := by
  intro scope
  have htest : ∀ place trail, isOnTrail place (scope.onTrail trail) =
      .returned (decide (place ∈ trail)) (scope.onTrail trail) := fun _ _ => rfl
  rw [Level.pattern, Level.pattern, bind_of_returned (htest place trail),
    bind_of_returned (htest place' trail'), h.isolates_eq hp]
  by_cases hplace : place ∈ trail
  · rw [decide_eq_true hplace, decide_eq_true (hon.1 hplace), if_pos rfl, if_pos rfl]
    exact ((alike_record _).bind fun _ => alike_pure _) scope
  · rw [decide_eq_false hplace, decide_eq_false (mt hon.2 hplace), if_neg Bool.false_ne_true,
      if_neg Bool.false_ne_true]
    exact (h.elements hp (hnew hplace) _ _).withPlace scope

/-- The pattern of an entry is on both trails or on neither. -/
theorem entry {p p' : Pattern} (hp : Pattern.Reordered p p') (htrails : TrailsAgree trail trail')
    (o : Origin) (label : String) :
    Alike trail trail' (level.pattern ⟨o, []⟩ label p) (level'.pattern ⟨o, []⟩ label p') := by
  have horigins := htrails.origins o
  simp only [mem_trailOrigins] at horigins
  exact h.pattern hp horigins (fun hnew => htrails.entry (mt mem_trailOrigins.1 hnew)) label

/-- The pattern of a variant is on neither. -/
theorem variantText {s s' : Selection} {index index' : Nat}
    (hv : Option.Rel Variant.Reordered s.variants[index]? s'.variants[index']?)
    (hplaces : PlacesAgree place trail place' trail') :
    Alike trail trail' (level.variantText place s index) (level'.variantText place' s' index') := by
  have hnew := (hplaces.within.step (index + 1)).2
  have hnew' := (hplaces.within'.step (index' + 1)).2
  unfold Level.variantText
  rcases rel_cases hv with ⟨hmissing, hmissing'⟩ | ⟨v, v', hfound, hfound', -, -, hvalue⟩
  · rw [hmissing, hmissing']
    exact alike_missing
  · rw [hfound, hfound']
    exact h.pattern hvalue ⟨fun hon => absurd hon hnew, fun hon => absurd hon hnew'⟩
      (fun _ => hplaces.variant (index + 1) (index' + 1)) "select"

theorem message (htrails : TrailsAgree trail trail') (id : String) (attr : Option String) :
    Alike trail trail' (level.message id attr) (level'.message id attr) := by
  unfold Level.message
  rcases rel_cases (h.formatter.catalog.message id) with ⟨hm, hm'⟩ | ⟨m, m', hm, hm', hsame⟩
  · rw [hm, hm']
    exact alike_failed _ _
  rw [hm, hm']
  cases attr with
  | none =>
    rcases rel_cases hsame.value with ⟨hp, hp'⟩ | ⟨p, p', hp, hp', hvalue⟩
    · simp only [hp, hp']
      exact alike_failed _ _
    · simp only [hp, hp']
      exact (h.entry hvalue htrails _ _).map _
  | some name =>
    rcases rel_cases (findAttribute?_reordered name hsame.attributes) with
      ⟨ha, ha'⟩ | ⟨a, a', ha, ha', hpart⟩
    · simp only [ha, ha']
      exact alike_failed _ _
    · simp only [ha, ha']
      exact (h.entry hpart.value htrails _ _).map _

theorem term (htrails : TrailsAgree trail trail') (id : String) (attr : Option String)
    {arguments arguments' : Option CallArguments}
    (harguments : termArguments arguments' = termArguments arguments) :
    Alike trail trail' (level.term id attr arguments) (level'.term id attr arguments') := by
  have hargs : ∀ arguments : Option CallArguments,
      (arguments.map fun call => namedArguments call.named).getD .empty =
        termArguments arguments := by
    rintro (_ | call) <;> rfl
  unfold Level.term
  dsimp only
  rw [hargs, hargs, harguments]
  rcases rel_cases (h.formatter.catalog.term id) with ⟨ht, ht'⟩ | ⟨t, t', ht, ht', hsame⟩
  · rw [ht, ht']
    exact alike_failed _ _
  rw [ht, ht']
  cases attr with
  | none => exact ((h.entry hsame.value htrails _ _).withLocalArgs).map _
  | some name =>
    rcases rel_cases (findAttribute?_reordered name hsame.attributes) with
      ⟨ha, ha'⟩ | ⟨a, a', ha, ha', hpart⟩
    · simp only [ha, ha']
      exact alike_failed _ _
    · simp only [ha, ha']
      exact ((h.entry hpart.value htrails _ _).withLocalArgs).map _

/-- Reordered arguments do the same on both trails, by induction on those left. -/
theorem arguments {list list' : List Expression}
    (hlist : List.Forall₂ Expression.Reordered list list')
    (hplaces : PlacesAgree place trail place' trail') (index : Nat) :
    Alike trail trail' (level.arguments place index list)
      (level'.arguments place' index list') := by
  induction hlist generalizing index with
  | nil => exact alike_pure _
  | cons he _ ih =>
    refine (h.resolve (hplaces.step index index) he).bind fun result => ?_
    cases result with
    | value v => exact (ih _).bind fun _ => alike_pure _
    | placeholder label => exact alike_pure _

theorem run (call : Call) : Alike trail trail' (level.run call) (level'.run call) := by
  intro scope
  rw [Level.run, Level.run, h.ask]
  exact .returned _ { scope with thread := (call.run level.ask scope.thread).2 }

/-- Reordered function calls do the same on both trails. -/
theorem function {call call' : CallArguments} (hcall : call.Reordered call')
    (hplaces : PlacesAgree place trail place' trail') (name : String) :
    Alike trail trail' (level.function place name call) (level'.function place' name call') := by
  obtain ⟨hpositional, hnamed⟩ := hcall
  have hfunctions : level'.formatter.functions = level.formatter.functions := by
    rw [h.formatter.rest]
  cases hf : level.formatter.functions.find? name with
  | none =>
    rw [level.function_of_unknown hf, level'.function_of_unknown (hfunctions ▸ hf)]
    exact alike_failed _ _
  | some f =>
    rw [level.function_of_found hf, level'.function_of_found (hfunctions ▸ hf), hnamed]
    refine (h.arguments hpositional hplaces 0).bind fun positional => ?_
    cases positional with
    | none => exact alike_pure _
    | some values =>
      refine (h.run _).bind fun result => ?_
      cases result with
      | value v => exact alike_pure _
      | failure error => exact alike_failed _ _
      | brokenOff => exact alike_failed _ _

/-- Both levels choose the same variant of a selection. -/
theorem choice?_eq (s : Selection) (result : Resolved) :
    level'.choice? s result = level.choice? s result := by
  cases result with
  | placeholder label => rfl
  | value v =>
    have hplurals : level'.formatter.plurals = level.formatter.plurals := by rw [h.formatter.rest]
    have hlocale : level'.formatter.locale = level.formatter.locale := by rw [h.formatter.rest]
    unfold choice?
    rw [hplurals, hlocale]

/-- Reordered selections do the same on both trails, though the chosen variant may stand
elsewhere. -/
theorem select {s s' : Selection} (hs : s.Reordered s')
    (hplaces : PlacesAgree place trail place' trail') :
    Alike trail trail' (level.select place s) (level'.select place' s') := by
  rw [Level.select_eq, Level.select_eq]
  cases hs with
  | outer hs =>
    -- the same variant is chosen, but it stands at another place
    rw [hs.selector]
    refine (h.resolve (hplaces.step 0 0) (.same _)).bind fun result => ?_
    rw [indexAfter_eq, indexAfter_eq, h.choice?_eq]
    rcases hs.choice?_cases level result with ⟨hi, hi'⟩ | ⟨index, index', v, hi, hi', hv, hv'⟩
    · rw [hi, hi']
      exact alike_missing
    · rw [hi, hi']
      refine h.variantText ?_ hplaces
      rw [hv, hv']
      exact .some (.same v)
  | inner hselector hvariants hdefault =>
    -- the keys stand where they stood, so the place is the same, but not what is in the variant
    refine (h.resolve (hplaces.step 0 0) hselector).bind fun result => ?_
    rw [indexAfter_eq, indexAfter_eq, h.choice?_eq,
      level.choice?_congr (keys_eq_of_reordered hvariants) hdefault]
    exact (alike_ofOption _).bind fun index =>
      h.variantText (rel_getElem?_of_forall₂ hvariants index) hplaces

/-- Reordered expressions of any form do the same on both trails. -/
theorem expression {e e' : Expression} (he : e.Reordered e')
    (hplaces : PlacesAgree place trail place' trail') :
    Alike trail trail' (level.expression place e) (level'.expression place' e') := by
  cases he with
  | same =>
    cases e with
    | string literal => exact alike_pure _
    | number literal => exact alike_pure _
    | var id => exact alike_variableValue _
    | message id attr => exact h.message hplaces.trails _ _
    | term id attr arguments => exact h.term hplaces.trails _ _ rfl
    | function id call => exact h.function (.same call) hplaces _
    | select s => exact (h.select (.same s) hplaces).map _
    | placeable inner => exact h.resolve hplaces (.same inner)
  | term hcall =>
    obtain ⟨-, hnamed⟩ := hcall
    exact h.term hplaces.trails _ _ (congrArg namedArguments hnamed)
  | function hcall => exact h.function hcall hplaces _
  | select hs => exact (h.select hs hplaces).map _
  | placeable he => exact h.resolve hplaces he

theorem target (t : Target) : Alike [] [] (level.target t) (level'.target t) := by
  cases t with
  | message id attr => exact h.message trailsAgree_nil _ _
  | pattern p => exact (h.entry (.same p) trailsAgree_nil .standalone _).map _

end Level.Reordered

/-- In a scope of its own a resolution comes to the same text and problems. -/
theorem contained_alike {body body' : Resolving Resolved} (h : Alike [] [] body body')
    (label : String) (args : Arguments) (thread : Thread) :
    contained label args body' thread = contained label args body thread := by
  have htext := (h.bind alike_text { args := args, thread := thread }).eq
  simp only [Scope.onTrail] at htext
  rw [contained, contained, htext]

namespace Session.Reordered

variable {session session' : Session} (h : session.Reordered session')
include h

/-- At each place reordered sessions have reordered formatters. -/
theorem formatter (n : Nat) : (session.formatter n).Reordered (session'.formatter n) := by
  have hmain : session.main.Reordered session'.main := (List.forall₂_cons.1 h).1
  unfold Session.formatter
  rcases rel_cases (rel_getElem?_of_forall₂ h n) with ⟨hn, hn'⟩ | ⟨found, found', hn, hn', hsame⟩
  · rw [hn, hn']
    exact hmain
  · rw [hn, hn']
    exact hsame

/-- Reordered sessions have the same limit. -/
theorem limit_eq : session'.limit = session.limit := by
  unfold Session.limit
  unfold Session.Reordered at h
  generalize session.formatters = formatters at h ⊢
  generalize session'.formatters = formatters' at h ⊢
  induction h with
  | nil => rfl
  | cons hfirst _ ih => rw [greatestLimit, greatestLimit, hfirst.limit_eq, ih]

/-- With the given room, expressions come to the same, and so do requests. -/
theorem atRoom (room : Nat) {formatter formatter' : Formatter}
    (hformatter : formatter.Reordered formatter') :
    (∀ {place trail place' trail' e e'}, PlacesAgree place trail place' trail' →
      e.Reordered e' → Alike trail trail' (session.resolve room formatter place e)
        (session'.resolve room formatter' place' e')) ∧
    session'.formatAt room formatter' = session.formatAt room formatter := by
  -- the formatters vary, since a function of one may ask any other for a text
  induction room generalizing formatter formatter' with
  | zero =>
    refine ⟨fun _ _ => ?_, ?_⟩
    · rw [resolve, resolve, hformatter.limit_eq]
      exact alike_failed _ _
    · funext request thread
      rw [formatAt, formatAt, hformatter.limit_eq]
  | succ room ih =>
    have hlevel : (session.level room formatter).Reordered (session'.level room formatter') :=
      ⟨hformatter, (ih hformatter).1, funext fun n => (ih (h.formatter n)).2⟩
    refine ⟨fun hplaces he => ?_, ?_⟩
    · rw [resolve, resolve, hformatter.limit_eq]
      exact (alike_failed _ _).guarded (hlevel.expression he.peeled hplaces)
    · funext request thread
      rw [formatAt, formatAt, hformatter.limit_eq]
      exact contained_alike ((alike_failed _ _).guarded (hlevel.target request.target)) _ _ _

/-- **Sessions that differ in the order of variants format everything the same.** -/
theorem format (request : Request) (thread : Thread) :
    session'.format request thread = session.format request thread := by
  have hmain : session.main.Reordered session'.main := (List.forall₂_cons.1 h).1
  rw [Session.format, Session.format, h.limit_eq, (h.atRoom _ hmain).2]

end Session.Reordered

/-! ## Selections -/

/-- An expression at the place may be resolved in the scope: the pattern of the entry that it stands
in is on the trail, with nothing below the place, and so are those of all places on the trail. -/
structure Scope.Surrounds (scope : Scope) (place : Place) : Prop where
  within : place.Within scope.trail
  closed : ∀ other ∈ scope.trail, other.origin ∈ trailOrigins scope.trail

/-- So it is whenever an expression is resolved in a run. -/
theorem Moment.Fits.surrounds {formatter : Formatter} {root : Origin} {m : Moment}
    (h : m.Fits formatter root) {place : Place} {e : Expression} (hm : m.task = .expression place e)
    (he : ∀ id attr, e.peeled ≠ .message id attr) : m.scope.Surrounds place where
  within := (hm ▸ h.stands : Task.StandsIn _ _ (.expression place e)).within he
  closed := h.closed

namespace Selection

variable {s s' : Selection}

/-- The same variant is chosen in both orders. -/
theorem Reorders.chosen_eq (h : s.Reorders s') (level : Level) (result : Resolved) :
    level.chosen s' result = level.chosen s result := by
  rw [Level.chosen, Level.chosen, Level.indexAfter_eq, Level.indexAfter_eq]
  rcases h.choice?_cases level result with ⟨hi, hi'⟩ | ⟨index, index', v, hi, hi', hv, hv'⟩
  · rw [hi, hi']
    rfl
  · rw [hi, hi']
    show ofOption s'.variants[index']? = ofOption s.variants[index]?
    rw [hv, hv']

/-- In a scope that surrounds its place, a selection resolves in both orders to the same
outcome. -/
theorem Reorders.resolve_eq (h : s.Reorders s') (session : Session) (room : Nat)
    (formatter : Formatter) {place : Place} {scope : Scope} (hscope : scope.Surrounds place) :
    session.resolve room formatter place (.select s') scope =
      session.resolve room formatter place (.select s) scope := by
  have hplaces : PlacesAgree place scope.trail place scope.trail :=
    ⟨⟨fun _ => .rfl, hscope.closed, hscope.closed⟩, rfl, hscope.within, hscope.within⟩
  exact (((Session.Reordered.same session).atRoom room (.same formatter)).1 hplaces
    (.select (.outer h)) scope).eq

/-- **The order of variants does not matter if their keys are different.**  In any order the
variants make a selection, which chooses the same variant for whatever a selector resolves to, and
comes to the same, with the same problems, in every scope that an expression at its place is
resolved in.  Sessions in which some selections have their variants in another order therefore
format everything the same.  And whatever the keys are, the first variant whose key is the value
comes before all others; only where there is none does a plural category count, and the default
variant only where that has no variant either. -/
theorem order_irrelevant :
    (∀ (selector : Expression) (variants variants' : List Variant) (s : Selection),
      build selector variants = .ok s → DistinctKeys variants → variants.Perm variants' →
        ∃ s', build selector variants' = .ok s' ∧
          (∀ (level : Level) (result : Resolved), level.chosen s' result = level.chosen s result) ∧
          ∀ (session : Session) (room : Nat) (formatter : Formatter) (place : Place)
            (scope : Scope), scope.Surrounds place →
              session.resolve room formatter place (.select s') scope =
                session.resolve room formatter place (.select s) scope) ∧
    (∀ session session' : Session, session.Reordered session' → ∀ request thread,
      session'.format request thread = session.format request thread) ∧
    ∀ (level : Level) (s : Selection) (result : Resolved) (index : Nat) (scope after : Scope),
      level.indexAfter s result scope = .returned index after ↔
        after = scope ∧ level.ChoosesFor s result index := by
  refine ⟨fun selector variants variants' s hs hkeys hperm => ?_,
    fun session session' h request thread => h.format request thread,
    fun level s result index scope after => Level.indexAfter_eq_returned_iff⟩
  obtain ⟨hchecked, rfl, rfl⟩ := build_eq_ok_iff.1 hs
  obtain ⟨s', hs'⟩ := hchecked.exists_build hperm
  have hreorders := Reorders.of_build hs hs' hkeys hperm
  exact ⟨s', hs', hreorders.chosen_eq, fun session room formatter place scope hscope =>
    hreorders.resolve_eq session room formatter hscope⟩

/-- The number 0 as a key. -/
def literalZero : NumberLiteral :=
  ⟨⟨0, 0, false, by decide, by decide, fun _ => rfl⟩, "0"⟩

/-- The number 1 as a key. -/
def literalOne : NumberLiteral :=
  ⟨⟨1, 0, false, by decide, by decide, nofun⟩, "1"⟩

/-- A word for a number. -/
def counted : Selection where
  selector := .var ⟨"n"⟩
  variants := [⟨.number literalOne, [.text "just one"], false⟩,
    ⟨.identifier ⟨"one"⟩, [.text "one"], false⟩, ⟨.identifier ⟨"other"⟩, [.text "some"], true⟩,
    ⟨.number literalZero, [.text "none"], false⟩]
  defaultIndex := 2

/-- A formatter that uses the selection. -/
def counting (s : Selection) : Formatter where
  catalog := ⟨⟨[("count", ⟨⟨"count"⟩, some [.placeable (.select s)], [], none⟩)]⟩, .empty⟩
  locale := { language := some "en" }

/-- A formatter around a reordered selection is a reordered formatter. -/
theorem counting_reordered {s s' : Selection} (h : s.Reorders s') :
    (counting s).Reordered (counting s') := by
  refine ⟨⟨fun id => ?_, fun _ => .none⟩, rfl⟩
  simp only [Catalog.message?, SortedMap.find?, counting, SortedMap.lookup_cons, List.lookup_nil]
  split
  · exact .some ⟨.some (.cons (.placeable (.select (.outer h))) .nil), .nil⟩
  · exact .none

/-- With the last variant first the same is chosen and formatted; for one it is the first variant,
though the second one has its category. -/
theorem order_irrelevant_counted :
    ∃ s', build counted.selector counted.variants.reverse = .ok s' ∧
      (∀ (level : Level) (result : Resolved),
        level.chosen s' result = level.chosen counted result) ∧
      (Session.mk (counting counted) []).resolve 2 (counting counted) ⟨.message "count" none, [0]⟩
          (.select s') { args := .empty, trail := [⟨.message "count" none, []⟩] } =
        (Session.mk (counting counted) []).resolve 2 (counting counted) ⟨.message "count" none, [0]⟩
          (.select counted) { args := .empty, trail := [⟨.message "count" none, []⟩] } ∧
      (∀ request thread, (Session.mk (counting s') []).format request thread =
        (Session.mk (counting counted) []).format request thread) ∧
      (Session.level ⟨counting counted, []⟩ 1 (counting counted)).indexAfter counted
        (.value (.number (.ofLiteral literalOne))) { args := .empty } =
          .returned 0 { args := .empty } := by
  have hkeys : DistinctKeys counted.variants := ⟨by decide +kernel, by decide +kernel⟩
  have hperm : counted.variants.Perm counted.variants.reverse := (List.reverse_perm _).symm
  have hbuild : build counted.selector counted.variants = .ok counted := rfl
  obtain ⟨horder, hformat, hchoice⟩ := order_irrelevant
  obtain ⟨s', hs', hchosen, hresolve⟩ := horder _ _ _ _ hbuild hkeys hperm
  have hreorders := Reorders.of_build hbuild hs' hkeys hperm
  refine ⟨s', hs', hchosen, hresolve _ _ _ _ _ ⟨⟨by decide, by decide⟩, by decide⟩,
    hformat _ _ (.cons (counting_reordered hreorders) .nil), (hchoice _ _ _ _ _ _).2 ⟨rfl, ?_⟩⟩
  exact .exact ⟨by decide, by decide +kernel, fun i hi => absurd hi (Nat.not_lt_zero i)⟩

end Selection

end Fluent
