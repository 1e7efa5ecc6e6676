/-
# Nothing breaks off

A resolution breaks off where a number cannot be written, where the plural rules break off, or where
a selection has no variant at the place that was chosen.  None of this happens in parsed trees as
long as no value asks for more digits than can be written, and then resolving makes no such value
either.  So what formatting leaves when it breaks off is never needed.

* `Resolving.Completes` : from sound scopes a resolution returns, with a good result;
* `Level.Reliable.expression` : what a level does completes, if the next level does;
* `Session.Reliable.completes_resolve` : so all levels do;
* `Session.internal_not_recorded` : no problem ever tells that formatting broke off.
-/
import Fluent.Proofs.Format.Affordable
import Fluent.Proofs.Format.Writable

namespace Fluent

open Resolving

/-! ## Resolutions that complete -/

/-- The problem tells that formatting broke off. -/
def ResolverError.IsInternal : ResolverError → Prop
  | .internal _ => True
  | _ => False

/-- A problem with a reference is not an internal one. -/
theorem ResolverError.not_isInternal_of_category {error : ResolverError}
    (h : error.category = .reference) : ¬error.IsInternal := by
  cases error with
  | internal label => cases h
  | _ => exact id

/-- All values of variables can be written, and no problem tells that formatting broke off. -/
structure Scope.Sound (scope : Scope) : Prop where
  args : scope.args.Writable
  localArgs : ∀ given, scope.localArgs = some given → given.Writable
  errors : ∀ error ∈ scope.errors, ¬error.IsInternal

/-- The arguments that are visible in a sound scope can be written. -/
theorem Scope.Sound.visibleArgs {scope : Scope} (h : scope.Sound) :
    scope.visibleArgs.Writable := by
  unfold Scope.visibleArgs
  cases hlocal : scope.localArgs with
  | none => exact h.args
  | some given => exact h.localArgs given hlocal

namespace Resolving

variable {α β : Type} {P : α → Prop} {Q : β → Prop}

/-- From every sound scope the resolution returns a good result, and it leaves a sound scope. -/
def Completes (good : α → Prop) (m : Resolving α) : Prop :=
  ∀ scope : Scope, scope.Sound → ∃ a after, m scope = .returned a after ∧ good a ∧ after.Sound

/-- A good result is returned. -/
theorem completes_pure {a : α} (h : P a) : Completes P (pure a : Resolving α) :=
  fun scope hs => ⟨a, scope, rfl, h, hs⟩

/-- Completing steps in a row complete. -/
theorem Completes.bind {first : Resolving α} {next : α → Resolving β} (h : Completes P first)
    (h' : ∀ a, P a → Completes Q (next a)) : Completes Q (first >>= next) := by
  intro scope hs
  obtain ⟨a, mid, hmid, ha, hsound⟩ := h scope hs
  obtain ⟨b, after, hafter, hb, hlast⟩ := h' a ha mid hsound
  exact ⟨b, after, (bind_of_returned hmid).trans hafter, hb, hlast⟩

/-- A result may be mapped to another kind of good ones. -/
theorem Completes.map {m : Resolving α} {f : α → β} (h : Completes P m) (hf : ∀ a, P a → Q (f a)) :
    Completes Q (f <$> m) :=
  h.bind fun a ha => completes_pure (hf a ha)

/-- What is there does not break off. -/
theorem completes_ofOption {a : α} {found : Option α} (hfound : found = some a) (h : P a) :
    Completes P (ofOption found) := by
  rw [hfound]
  exact completes_pure h

/-- A problem that is not internal may be recorded. -/
theorem completes_record {error : ResolverError} (h : ¬error.IsInternal) :
    Completes (fun _ => True) (record error) :=
  fun _ hs => ⟨(), _, rfl, trivial, hs.args, hs.localArgs, List.forall_mem_cons.2 ⟨h, hs.errors⟩⟩

/-- A placeholder with its problem is a result that can be written. -/
theorem completes_failed {error : ResolverError} (h : ¬error.IsInternal) (label : String) :
    Completes Resolved.Writable (failed error label) :=
  (completes_record h).bind fun _ _ => completes_pure trivial

/-- What can be written has a text where it is placed. -/
theorem completes_text {result : Resolved} (h : result.Writable) :
    Completes (fun _ => True) result.text := by
  cases result with
  | value v =>
    obtain ⟨text, htext⟩ := Value.Writable.exists_text h
    exact completes_ofOption htext trivial
  | placeholder label => exact completes_pure trivial

/-- Looking an argument up completes, and the value that is found can be written. -/
theorem completes_valueOf? (name : String) :
    Completes (fun found => ∀ v, found = some v → v.Writable) (valueOf? name) :=
  fun scope hs => ⟨_, scope, rfl, fun v hv => hs.visibleArgs name v hv, hs⟩

/-- Asking whether a place is being resolved completes. -/
theorem completes_isOnTrail (place : Place) : Completes (fun _ => True) (isOnTrail place) :=
  fun scope hs => ⟨_, scope, rfl, trivial, hs⟩

/-- A body completes with arguments of its own, if these can be written. -/
theorem Completes.withLocalArgs {args : Arguments} {body : Resolving α} (hargs : args.Writable)
    (h : Completes P body) : Completes P (withLocalArgs args body) := by
  intro scope hs
  have hlocal : ∀ given, some args = some given → given.Writable := by
    rintro _ ⟨⟩
    exact hargs
  obtain ⟨a, after, hafter, ha, hsound⟩ :=
    h { scope with localArgs := some args } ⟨hs.args, hlocal, hs.errors⟩
  rw [withLocalArgs_eq, hafter]
  exact ⟨a, _, rfl, ha, hsound.args, hs.localArgs, hsound.errors⟩

/-- A body completes under a place on the trail. -/
theorem Completes.withPlace {place : Place} {body : Resolving α} (h : Completes P body) :
    Completes P (withPlace place body) := by
  intro scope hs
  obtain ⟨a, after, hafter, ha, hsound⟩ :=
    h { scope with trail := place :: scope.trail } ⟨hs.args, hs.localArgs, hs.errors⟩
  rw [withPlace_eq, hafter]
  exact ⟨a, _, rfl, ha, hsound.args, hsound.localArgs, hsound.errors⟩

/-- A guarded body completes on both branches of the guard. -/
theorem Completes.guarded {limit : Nat} {atLimit body : Resolving α} (hl : Completes P atLimit)
    (h : Completes P body) : Completes P (guarded limit atLimit body) := by
  intro scope hs
  cases he : scope.thread.depth.enter? limit with
  | none =>
    rw [guarded_of_full he]
    exact hl scope hs
  | some entered =>
    obtain ⟨a, after, hafter, ha, hsound⟩ :=
      h (scope.withDepth entered) ⟨hs.args, hs.localArgs, hs.errors⟩
    rw [guarded_of_entered he, hafter]
    exact ⟨a, _, rfl, ha, hsound.args, hsound.localArgs, hsound.errors⟩

end Resolving

/-! ## Trees -/

/-- The rules of the checked constructors and no others. -/
def TreeRules.constructors : TreeRules where
  name _ := True
  pattern _ := True
  placed _ := True
  message _ := True
  span _ := True

/-- The tree keeps the rules without the placeables wrapped around it. -/
theorem Expression.Keeps.peeled {rules : TreeRules} {e : Expression} (h : e.Keeps rules) :
    e.peeled.Keeps rules := by
  induction e using Expression.peeled.induct with
  | case1 inner ih => exact ih h.2
  | case2 e he =>
    rw [Expression.peeled]
    · exact h
    · exact he

/-- The patterns of an entry keep the rules that the entry keeps. -/
theorem Entry.Keeps.patterns {rules : TreeRules} {e : Entry} (h : e.Keeps rules) :
    ∀ p ∈ e.patterns, Pattern.Keeps rules p := by
  cases e with
  | message m =>
    refine List.forall_mem_append.2 ⟨fun p hp => h.value p (Option.mem_toList.1 hp), ?_⟩
    exact List.forall_mem_map.2 fun a ha => (h.attributes a ha).value
  | term t =>
    exact List.forall_mem_cons.2
      ⟨h.value, List.forall_mem_map.2 fun a ha => (h.attributes a ha).value⟩
  | comment _ => exact List.forall_mem_nil _
  | junk _ => exact List.forall_mem_nil _

/-- The patterns of parsed entries keep the rules of the checked constructors. -/
theorem Catalog.keeps_patternOf? {catalog : Catalog}
    (hparsed : ∀ e, catalog.Defines e → e.IsParsed) {o : Origin} {p : Pattern}
    (h : catalog.patternOf? o = some p) : Pattern.Keeps .constructors p := by
  obtain ⟨e, he, hp⟩ := exists_entry h
  obtain ⟨settings, source, hmem⟩ := hparsed e he
  have hweaker : (TreeRules.wellFormed (utf8Length source)).Implies .constructors :=
    ⟨fun _ _ => trivial, fun _ _ => trivial, fun _ _ => trivial, fun _ _ => trivial,
      fun _ _ => trivial⟩
  exact (parse_keeps settings hweaker e hmem).patterns p hp

/-! ## One level -/

/-- The level resolves parsed patterns with plural rules and functions that get along with values
that can be written, and so does the next level. -/
structure Level.Reliable (level : Level) : Prop where
  patterns : ∀ o p, level.formatter.catalog.patternOf? o = some p → Pattern.Keeps .constructors p
  plurals : ∀ n : NumberValue, n.Writable →
    ∃ category, level.formatter.plurals n level.formatter.locale = some category
  run : ∀ name f, level.formatter.functions.find? name = some f → ∀ positional named,
    (∀ v ∈ positional, v.Writable) → Arguments.Writable named →
      Completes CallResult.Writable (level.run (f positional named))
  resolve : ∀ place e, e.Keeps .constructors → Completes Resolved.Writable (level.resolve place e)

/-- The value of a variable can be written, and a missing one leaves a placeholder. -/
theorem Level.completes_variableValue (name : String) :
    Completes Resolved.Writable (Level.variableValue name) := by
  refine (completes_valueOf? name).bind fun found hfound => ?_
  cases found with
  | none => exact completes_failed id _
  | some v => exact completes_pure (hfound v rfl)

namespace Level.Reliable

variable {level : Level} (h : level.Reliable)
include h

/-! ### Patterns -/

/-- The elements of a pattern complete, by induction on those left. -/
theorem elements (isolating : Bool) (place : Place) {list : List PatternElement}
    (hlist : ∀ x ∈ list, x.Keeps .constructors) (index : Nat) :
    Completes (fun _ => True) (level.elements isolating place index list) := by
  induction list generalizing index with
  | nil => exact completes_pure trivial
  | cons element rest ih =>
    obtain ⟨helement, hrest⟩ := List.forall_mem_cons.1 hlist
    cases element with
    | text value => exact (ih hrest _).bind fun _ _ => completes_pure trivial
    | placeable e =>
      exact (h.resolve _ e helement.2).bind fun result hresult =>
        (completes_text hresult).bind fun _ _ =>
          (ih hrest _).bind fun _ _ => completes_pure trivial

/-- A pattern completes, also where it is resolved already. -/
theorem pattern (place : Place) (label : String) {p : Pattern}
    (hp : Pattern.Keeps .constructors p) :
    Completes (fun _ => True) (level.pattern place label p) := by
  refine (completes_isOnTrail place).bind fun onTrail _ => ?_
  cases onTrail with
  | true => exact (completes_record id).bind fun _ _ => completes_pure trivial
  | false => exact (h.elements _ place hp.2 0).withPlace

/-! ### References -/

theorem message (id : String) (attr : Option String) :
    Completes Resolved.Writable (level.message id attr) := by
  rcases level.message_cases id attr with ⟨p, hp, heq⟩ | ⟨-, error, label, hcategory, heq⟩
  · rw [heq]
    exact (h.pattern _ _ (h.patterns (.message id attr) p hp)).map fun _ _ => trivial
  · rw [heq]
    exact completes_failed (ResolverError.not_isInternal_of_category hcategory) _

/-- A term reference completes: the arguments that it passes on are literals. -/
theorem term (id : String) (attr : Option String) {arguments : Option CallArguments}
    (harguments : ∀ call, arguments = some call → call.Keeps .constructors) :
    Completes Resolved.Writable (level.term id attr arguments) := by
  have hvars : (termArguments arguments).Writable := by
    cases arguments with
    | none => exact Arguments.writable_empty
    | some call =>
      have hcall := CallArguments.keeps_iff.1 (harguments call rfl)
      exact writable_namedArguments fun a ha => (hcall.2.2 a ha).value
  rcases level.term_cases id attr arguments with ⟨p, hp, heq⟩ | ⟨-, error, label, hcategory, heq⟩
  · rw [heq]
    exact ((h.pattern _ _ (h.patterns (.term id attr) p hp)).withLocalArgs hvars).map
      fun _ _ => trivial
  · rw [heq]
    exact completes_failed (ResolverError.not_isInternal_of_category hcategory) _

/-! ### Calls -/

/-- Positional arguments complete with values that can be written, or with none if one of them
failed. -/
theorem arguments (place : Place) {list : List Expression}
    (hlist : ∀ e ∈ list, e.Keeps .constructors) (index : Nat) :
    Completes (fun values? => ∀ values, values? = some values → ∀ v ∈ values, v.Writable)
      (level.arguments place index list) := by
  induction list generalizing index with
  | nil =>
    refine completes_pure ?_
    rintro _ ⟨⟩
    exact List.forall_mem_nil _
  | cons e rest ih =>
    obtain ⟨he, hrest⟩ := List.forall_mem_cons.1 hlist
    refine (h.resolve _ e he).bind fun result hresult => ?_
    cases result with
    | placeholder label => exact completes_pure fun _ hnone => by cases hnone
    | value v =>
      refine (ih hrest _).map fun values? hvalues values heq => ?_
      obtain ⟨others, hothers, rfl⟩ := Option.map_eq_some_iff.1 heq
      exact List.forall_mem_cons.2 ⟨hresult, hvalues others hothers⟩

/-- A function call completes: the table gives only values that can be written. -/
theorem function (place : Place) (name : String) {call : CallArguments}
    (hcall : call.Keeps .constructors) :
    Completes Resolved.Writable (level.function place name call) := by
  obtain ⟨-, hpositional, hnamed⟩ := CallArguments.keeps_iff.1 hcall
  unfold Level.function
  dsimp only
  split
  · exact completes_failed id _
  · rename_i f hf
    refine (h.arguments place hpositional 0).bind fun values? hvalues => ?_
    cases values? with
    | none => exact completes_pure trivial
    | some values =>
      refine (h.run name f hf values _ (hvalues values rfl)
        (writable_namedArguments fun a ha => (hnamed a ha).value)).bind fun result hresult => ?_
      cases result with
      | value v => exact completes_pure hresult
      | failure error => exact completes_failed id _
      | brokenOff => exact completes_failed id _

/-! ### Selections -/

/-- A place is chosen at which there is a variant. -/
theorem variantIndex {selection : Selection}
    (hdefault : selection.defaultIndex < selection.variants.length) {v : Value} (hv : v.Writable) :
    Completes (· < selection.variants.length) (level.variantIndex selection v) := by
  unfold Level.variantIndex
  split
  · rename_i index hindex
    obtain ⟨hlt, -⟩ := List.findIdx?_eq_some_iff_getElem.1 hindex
    exact completes_pure hlt
  · cases v with
    | number n =>
      obtain ⟨category, hcategory⟩ := h.plurals n hv
      refine (completes_ofOption (P := fun _ => True) hcategory trivial).bind fun found _ => ?_
      refine completes_pure ?_
      cases hindex : selection.categoryIndex? found with
      | none => exact hdefault
      | some index =>
        obtain ⟨hlt, -⟩ := List.findIdx?_eq_some_iff_getElem.1 hindex
        exact hlt
    | string text => exact completes_pure hdefault
    | none => exact completes_pure hdefault

/-- A select expression completes: the plural rules do not break off, and some variant is there. -/
theorem select (place : Place) {selection : Selection} (hs : selection.Keeps .constructors) :
    Completes (fun _ => True) (level.select place selection) := by
  obtain ⟨hchecked, hselector, hvariants⟩ := Selection.keeps_iff.1 hs
  have hindex : ∀ result : Resolved, result.Writable →
      Completes (· < selection.variants.length) (level.indexAfter selection result) := by
    intro result hresult
    cases result with
    | placeholder label => exact completes_pure hchecked.index_lt
    | value v => exact h.variantIndex hchecked.index_lt hresult
  rw [Level.select_eq]
  refine (h.resolve _ _ hselector).bind fun result hresult =>
    (hindex result hresult).bind fun index hlt => ?_
  have hvariant : Completes (· ∈ selection.variants) (ofOption selection.variants[index]?) :=
    completes_ofOption (List.getElem?_eq_getElem hlt) (List.getElem_mem hlt)
  exact hvariant.bind fun v hv => h.pattern _ _ (Variant.keeps_iff.1 (hvariants v hv)).2

/-! ### Expressions -/

/-- Finding the value of an expression completes, if it does one level deeper. -/
theorem expression (place : Place) {e : Expression} (he : e.Keeps .constructors) :
    Completes Resolved.Writable (level.expression place e) := by
  cases e with
  | string literal => exact completes_pure trivial
  | number literal => exact completes_pure (NumberLiteral.Checked.writable he)
  | var id => exact completes_variableValue id.name
  | message id attr => exact h.message _ _
  | term id attr arguments =>
    refine h.term _ _ ?_
    rintro call rfl
    exact he.2
  | function id call => exact h.function place _ he.2
  | select selection => exact (h.select place he).map fun _ _ => trivial
  | placeable inner => exact h.resolve place inner he.2

end Level.Reliable

/-- What is asked for keeps the rules. -/
def Target.Keeps (rules : TreeRules) : Target → Prop
  | .message _ _ => True
  | .pattern p => Fluent.Pattern.Keeps rules p

/-- Whatever a run is asked for completes on a reliable level. -/
theorem Level.Reliable.target {level : Level} (h : level.Reliable) {t : Target}
    (ht : t.Keeps .constructors) : Completes Resolved.Writable (level.target t) := by
  cases t with
  | message id attr => exact h.message _ _
  | pattern p => exact (h.pattern _ _ ht).map fun _ _ => trivial

/-! ## Whole runs -/

/-- What completes is not rescued. -/
theorem not_isInternal_of_contained {label : String} {args : Arguments}
    {body : Resolving Resolved} (hargs : args.Writable) (h : Completes Resolved.Writable body)
    (thread : Thread) :
    ∀ error ∈ (contained label args body thread).1.errors, ¬error.IsInternal := by
  have hstart : Scope.Sound { args := args, thread := thread } :=
    ⟨hargs, fun _ hnone => (by cases hnone), List.forall_mem_nil _⟩
  obtain ⟨text, after, hafter, -, hsound⟩ :=
    (h.bind fun _ hresult => completes_text hresult) _ hstart
  unfold contained
  rw [hafter]
  exact fun error herror => hsound.errors error (List.mem_reverse.1 herror)

/-- All entries of the formatter are parsed; its plural rules have a category for every number that
can be written; and its functions, given values that can be written, return no others, whatever
texts they ask the session for. -/
structure Session.Reliable (session : Session) (formatter : Formatter) : Prop where
  parsed : ∀ e, formatter.catalog.Defines e → e.IsParsed
  plurals : ∀ n : NumberValue, n.Writable →
    ∃ category, formatter.plurals n formatter.locale = some category
  functions : ∀ name f, formatter.functions.find? name = some f → ∀ positional named,
    (∀ v ∈ positional, v.Writable) → Arguments.Writable named → ∀ room thread,
      ((f positional named).run
        (fun place => session.formatAt room (session.formatter place)) thread).1.Writable

namespace Session.Reliable

variable {session : Session} {formatter : Formatter} (h : session.Reliable formatter)
include h

/-- A level is reliable if the next one resolves all expressions. -/
theorem level {room : Nat} (hresolve : ∀ place e, e.Keeps .constructors →
    Completes Resolved.Writable (session.resolve room formatter place e)) :
    (session.level room formatter).Reliable where
  patterns _ _ hp := Catalog.keeps_patternOf? h.parsed hp
  plurals := h.plurals
  run name f hf positional named hpositional hnamed scope hs :=
    ⟨_, _, rfl, h.functions name f hf positional named hpositional hnamed room scope.thread,
      hs.args, hs.localArgs, hs.errors⟩
  resolve := hresolve

/-- Finding the value of an expression completes, with whatever room. -/
theorem completes_resolve (room : Nat) (place : Place) {e : Expression}
    (he : e.Keeps .constructors) :
    Completes Resolved.Writable (session.resolve room formatter place e) := by
  induction room generalizing place e with
  | zero => exact completes_failed id _
  | succ room ih =>
    have hlevel := h.level fun place e he => ih place he
    exact (completes_failed id _).guarded (hlevel.expression place he.peeled)

/-- Formatting what is asked for is not rescued, with whatever room. -/
theorem not_isInternal_of_formatAt (room : Nat) (request : Request)
    (htarget : request.target.Keeps .constructors) (hargs : request.args.Writable)
    (thread : Thread) :
    ∀ error ∈ (session.formatAt room formatter request thread).1.errors, ¬error.IsInternal := by
  cases room with
  | zero => exact not_isInternal_of_contained hargs (completes_failed id _) thread
  | succ room =>
    have hlevel := h.level fun place e he => h.completes_resolve room place he
    exact not_isInternal_of_contained hargs
      ((completes_failed id _).guarded (hlevel.target htarget)) thread

end Session.Reliable

/-! ## Formatting -/

/-- The empty catalog defines nothing. -/
theorem Catalog.parsed_empty : ∀ e, Catalog.empty.Defines e → e.IsParsed := by
  intro e he
  cases e with
  | message m =>
    obtain ⟨id, ⟨⟩⟩ := he
  | term t =>
    obtain ⟨id, ⟨⟩⟩ := he
  | comment _ => exact he.elim
  | junk _ => exact he.elim

/-- Adding a parsed resource to parsed entries leaves parsed entries. -/
theorem Catalog.parsed_add {catalog : Catalog} (h : ∀ e, catalog.Defines e → e.IsParsed)
    (settings : ParserSettings) (source : List Char) :
    ∀ e, (catalog.add (Resource.parse settings source)).1.Defines e → e.IsParsed :=
  all_add (fun _ he => ⟨settings, source, he⟩) h

namespace Session

/-- A formatter with the tables of plural rules is reliable if its functions get along with values
that can be written whatever texts they get. -/
theorem reliable_of_writable {formatter : Formatter} (session : Session)
    (hparsed : ∀ e, formatter.catalog.Defines e → e.IsParsed)
    (hplurals : formatter.plurals = tabulatedPlurals) (hfunctions : formatter.functions.Writable) :
    session.Reliable formatter where
  parsed := hparsed
  plurals _ hn := hplurals ▸ tabulatedPlurals_of_writable hn _
  functions name f hf positional named hpositional hnamed _ thread :=
    (hfunctions name f hf positional named hpositional hnamed).run _ thread

/-- **Formatting never has to be rescued.**  Where all entries are parsed, the plural rules never
break off, and neither the values of variables nor those that functions return ask for more digits
than can be written, no problem tells that formatting broke off.  Functions may refuse their
arguments, break off themselves, and ask for texts; the same holds of each text that is asked for,
whatever room is left for it. -/
theorem internal_not_recorded {session : Session} {args : Arguments} (hargs : args.Writable)
    (id : String) (attr : Option String) (thread : Thread) (label : String) :
    let request : Request := ⟨.message id attr, args⟩
    (session.Reliable session.main →
      .internal label ∉ (session.format request thread).1.errors) ∧
    ∀ place room, session.Reliable (session.formatter place) →
      .internal label ∉
        (session.formatAt room (session.formatter place) request thread).1.errors := by
  intro request
  have hall : ∀ {formatter : Formatter} (room : Nat), session.Reliable formatter →
      .internal label ∉ (session.formatAt room formatter request thread).1.errors :=
    fun room h hmem => h.not_isInternal_of_formatAt room request trivial hargs thread _ hmem trivial
  exact ⟨hall _, fun _ room => hall room⟩

/-- A bill that sets digits, counts in plural forms, and calls two functions. -/
def billSource : List Char :=
  ("bill = \x7b NUMBER($sum, minimumFractionDigits: 100) \x7d of \x7b 1.50 \x7d, \x7b $sum ->\n" ++
    "    [few] few \x7b FAIL() \x7d\n   *[other] \x7b UNIT() \x7d\n\x7d\nunit = euro\n").toList

/-- The entries of the bill. -/
def billCatalog : Catalog :=
  (Catalog.empty.add (Resource.parse {} billSource)).1

/-- Has the unit formatted and returns its text. -/
def askUnit : Call :=
  .format 0 ⟨.message "unit" none, .empty⟩ fun formatted =>
    .value (.string (String.ofList formatted.text))

/-- One of the functions breaks off, the other one asks for a text. -/
def billing : Session where
  main :=
    { catalog := billCatalog
      functions := (FunctionTable.builtins.register "FAIL" fun _ _ => .breakOff).register "UNIT"
        fun _ _ => askUnit
      locale := { language := some "pl" } }

/-- A sum that asks for as many digits as can be written. -/
def billed : Arguments :=
  .ofList [("sum", .number ⟨floatOfNat 5, { minimumFractionDigits := some 65535 }⟩)]

/-- A bill with the most digits that can be written is formatted without being rescued. -/
theorem internal_not_recorded_billing :
    (billCatalog.message? "bill").isSome = true ∧ billed.Writable ∧
      billing.Reliable billing.main ∧
      ∀ label, .internal label ∉ (billing.format ⟨.message "bill" none, billed⟩).1.errors := by
  have hargs : billed.Writable := by
    refine SortedMap.forall_ofList (List.forall_mem_singleton.2 ?_)
    rintro _ ⟨⟩
    exact Nat.le_refl _
  have hbreaks : Call.Writable .breakOff := trivial
  have hasks : askUnit.Writable := fun _ => trivial
  have hfunctions : billing.main.functions.Writable :=
    (FunctionTable.writable_builtins.register "FAIL" fun _ _ _ _ => hbreaks).register "UNIT"
      fun _ _ _ _ => hasks
  have hparsed : ∀ e, billing.main.catalog.Defines e → e.IsParsed := by
    dsimp only [billing]
    exact Catalog.parsed_add Catalog.parsed_empty {} billSource
  have hreliable : billing.Reliable billing.main :=
    billing.reliable_of_writable hparsed rfl hfunctions
  exact ⟨by decide +kernel, hargs, hreliable,
    fun label => (internal_not_recorded hargs "bill" none {} label).1 hreliable⟩

end Session

end Fluent
