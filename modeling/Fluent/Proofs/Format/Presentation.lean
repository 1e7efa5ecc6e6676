/-
# Isolation marks are presentation

With and without isolation a message is formatted with the same problems, and the texts differ in
the marks only, unless a text that holds marks is read again.  It may be: the attribute of a term
may be a selector, and a message or a term the argument of a function.

* `Formatter.isolation_presentational` : isolation changes nothing but the marks where none is read;
* `Formatter.marks_matter_where_read` : and it does change more where one is;
* `Formatter.not_readsMarks` : no marks are read where no selector and no argument is a reference.
-/
import Fluent.Format.NumberFunction
import Fluent.Resource.Parse
import Fluent.Proofs.Format.FormatRun
import Fluent.Proofs.Format.MarksApart

namespace Fluent

open Resolving

/-! ## The built-in functions -/

/-- Formatting options make a number of a number. -/
theorem NumberFunction.withOptions_eq_value {number : NumberValue}
    {options : List (String × Value)} {v : Value}
    (h : NumberFunction.withOptions number options = .value v) : ∃ n, v = .number n := by
  fun_induction NumberFunction.withOptions number options with
  | case1 =>
    cases h
    exact ⟨_, rfl⟩
  | case3 | case5 | case6 | case8 => cases h
  | case2 _ _ _ _ _ ih | case4 _ _ _ _ _ _ ih => exact ih h
  | case7 _ _ _ _ _ _ _ _ _ ih => exact ih h
  | case9 _ _ _ _ _ _ _ ih => exact ih h

/-- The number function answers with numbers only. -/
theorem numberFunction_eq_value {positional : List Value} {named : Arguments} {v : Value}
    (h : numberFunction positional named = .value v) : ∃ n, v = .number n := by
  unfold numberFunction at h
  split at h
  · split at h
    · exact NumberFunction.withOptions_eq_value h
    · cases h
  · cases h

namespace FunctionTable

/-- A table without functions puts no marks in. -/
theorem unmarked_empty : empty.Unmarked :=
  nofun

/-- A table stays unmarked when a function is added that answers without marks. -/
theorem Unmarked.register {table : FunctionTable} (h : table.Unmarked) (name : String)
    {f : Function} (hf : ∀ positional named v, f positional named = .value v → v.Unmarked) :
    (table.register name f).Unmarked :=
  forall_register h name hf

/-- The built-in functions make numbers. -/
theorem unmarked_builtins : builtins.Unmarked :=
  unmarked_empty.register "NUMBER" fun positional named v h => by
    obtain ⟨n, rfl⟩ := numberFunction_eq_value h
    exact trivial

end FunctionTable

/-! ## What is read directly -/

/-- The expression is, but for the placeables around it, no reference to a pattern and no selection:
what it comes to is not put together from texts. -/
def Expression.isDirect (e : Expression) : Bool :=
  match e.peeled with
  | .string _ | .number _ | .var _ | .function .. => true
  | .message .. | .term .. | .select _ | .placeable _ => false

/-- Whatever the element reads is direct: the selector of a selection, the positional arguments of a
call. -/
def PatternElement.readsDirectly : PatternElement → Bool
  | .placeable (.select s) => s.selector.isDirect
  | .placeable (.function _ call) => call.positional.all Expression.isDirect
  | .text _ | .placeable _ => true

namespace Moment.Unmarked

variable {session : Session} {formatter : Formatter} (hplain : formatter.functions.IsPlain)
  (hfunctions : formatter.functions.Unmarked)
include hplain hfunctions

/-- What a direct expression comes to holds no marks. -/
theorem value {room : Nat} {place : Place} {e : Expression} {scope after : Scope} {v : Value}
    (h : Moment.Unmarked formatter ⟨room, .expression place e, scope⟩) (hdirect : e.isDirect = true)
    (hv : session.resolve room formatter place e scope = .returned (.value v) after) :
    v.Unmarked := by
  cases room with
  | zero => cases hv
  | succ room =>
    cases henter : scope.thread.depth.enter? formatter.limit with
    | none =>
      have hfull := (guarded_of_full henter).symm.trans hv
      cases hfull
    | some depth =>
      obtain ⟨inner, hinner, -⟩ := expression_eq_returned henter rfl hv
      unfold Expression.isDirect at hdirect
      cases he : e.peeled with
      | string literal =>
        rw [he] at hinner
        cases hinner
        exact h.ownTexts he _ List.mem_cons_self
      | number literal =>
        rw [he] at hinner
        cases hinner
        exact trivial
      | var id =>
        rw [he] at hinner
        obtain ⟨found, mid, hfound, hrest⟩ := bind_eq_returned.1 hinner
        cases found with
        | none => cases hrest
        | some own =>
          cases hrest
          exact h.scope.visibleArgs id.name v (Outcome.returned.inj hfound).1
      | function id call =>
        rw [he] at hinner
        replace hinner : (session.level room formatter).function place id.name call
          (scope.withDepth depth) = .returned (.value v) inner := hinner
        cases hf : formatter.functions.find? id.name with
        | none =>
          rw [Level.function_of_unknown _ hf] at hinner
          cases hinner
        | some f =>
          rw [Level.function_of_found _ hf] at hinner
          obtain ⟨positional, mid, -, hcall⟩ := bind_eq_returned.1 hinner
          cases positional with
          | none => cases hcall
          | some values =>
            -- the function answers by itself, and what it answers is unmarked
            have hresult := hfunctions id.name f hf values (namedArguments call.named)
            have hnoFormat := hplain id.name f hf values (namedArguments call.named)
            dsimp only [Level.run] at hcall
            cases hr : f values (namedArguments call.named) with
            | value made =>
              rw [hr] at hcall
              cases hcall
              exact hresult v hr
            | failure error | breakOff =>
              rw [hr] at hcall
              cases hcall
            | format =>
              rw [hr] at hnoFormat
              exact hnoFormat.elim
      -- none of these is direct
      | message | term | select | placeable =>
        rw [he] at hdirect
        cases hdirect

/-- Nor do the values of direct arguments. -/
theorem values {room : Nat} {place : Place} {list : List Expression} {index : Nat}
    {scope after : Scope} {values : List Value}
    (h : Moment.Unmarked formatter ⟨room, .arguments place index list, scope⟩)
    (hdirect : list.all Expression.isDirect = true)
    (hvalues : (session.level room formatter).arguments place index list scope =
      .returned (some values) after) :
    ∀ v ∈ values, v.Unmarked := by
  induction list generalizing index scope values with
  | nil =>
    cases hvalues
    exact List.forall_mem_nil _
  | cons e rest ih =>
    obtain ⟨he, hrest⟩ := Bool.and_eq_true_iff.1 (List.all_cons ▸ hdirect)
    obtain ⟨result, mid, hresult, hafter⟩ := bind_eq_returned.1 hvalues
    cases result with
    | placeholder label => cases hafter
    | value v =>
      obtain ⟨others, last, hothers, hsome⟩ := bind_eq_returned.1 hafter
      cases others with
      | none => cases hsome
      | some others =>
        cases hsome
        have hfirst := @step session _ _ _ h .argument
        have hnext := @step session _ _ _ h (.nextArgument hresult)
        exact List.forall_mem_cons.2 ⟨hfirst.value hplain hfunctions he hresult,
          ih hnext hrest hothers⟩

/-- Where all is read directly, no marks are. -/
theorem not_readsMarks {m : Moment} (h : m.Unmarked formatter)
    (hdirect : ∀ x ∈ m.task.subtrees, x.readsDirectly = true) :
    ¬m.ReadsMarks session formatter := by
  intro hreads
  cases hreads with
  | selector henter he hselector hkey =>
    have hs := hdirect _ (he ▸ Expression.peeled_mem_subtrees _)
    have hnext := @step session _ _ _ h (.selector henter he)
    have hv := hnext.value hplain hfunctions hs hselector
    exact hkey (by rw [hv.stripped_eq])
  | @call _ _ _ _ _ _ _ call f values henter he hf hvalues hresult =>
    have hcall := hdirect _ (he ▸ Expression.peeled_mem_subtrees _)
    have hnext := @step session _ _ _ h (.call henter he hf)
    have hunmarked := hnext.values hplain hfunctions hcall hvalues
    refine hresult (congrArg (f · (namedArguments call.named)) ?_)
    exact (List.map_congr_left fun v hv => (hunmarked v hv).stripped_eq).trans (List.map_id _)

end Moment.Unmarked

/-! ## Format calls -/

namespace Formatter

variable {formatter : Formatter} {id : String} {attr : Option String} {args : Arguments}

section Unmarked

variable (hcatalog : formatter.catalog.Unmarked) (hid : Unmarked id.toList)
  (hattr : ∀ name, attr = some name → Unmarked name.toList) (hargs : args.Unmarked)
include hcatalog hid hattr hargs

/-- What is asked for holds no marks, nor does what it is answered from. -/
theorem unmarked_start : (formatter.start id attr args).Unmarked formatter where
  catalog := hcatalog
  label := nofun
  scope := ⟨hargs, nofun⟩
  texts x hx := by
    obtain rfl := List.mem_singleton.1 hx
    refine List.forall_mem_cons.2 ⟨hid, fun text htext => ?_⟩
    cases attr with
    | none => cases htext
    | some name =>
      obtain rfl := List.mem_singleton.1 htext
      exact hattr _ rfl

/-- **A call reads no marks if nothing in the catalog reads a reference.** -/
theorem not_readsMarks (hplain : formatter.functions.IsPlain)
    (hfunctions : formatter.functions.Unmarked)
    (hdirect : ∀ x ∈ formatter.catalog.subtrees, x.readsDirectly = true) {m : Moment}
    (hm : formatter.Reaches id attr args m) : ¬m.ReadsMarks ⟨formatter, []⟩ formatter := by
  have hinvariant : m.Unmarked formatter ∧ ∀ x ∈ m.task.subtrees, x.readsDirectly = true := by
    induction hm with
    | refl =>
      refine ⟨unmarked_start hcatalog hid hattr hargs, fun x hx => ?_⟩
      obtain rfl := List.mem_singleton.1 hx
      rfl
    | tail _ hstep ih => exact ⟨ih.1.step hstep, hstep.subtrees hdirect ih.2⟩
  exact hinvariant.1.not_readsMarks hplain hfunctions hinvariant.2

/-- **Isolation is presentation where no marks are read.**  With the built-in functions, and with no
isolation marks in what a formatter is given, it records the same problems with and without
isolation, and without its marks the isolated text is the plain one, provided that in the run with
isolation no selector chooses by its keys otherwise than it would without the marks, and no function
makes of its arguments something else than it would without them. -/
theorem isolation_presentational (hfunctions : formatter.functions = .builtins)
    (hreads : ∀ m, (formatter.withIsolating true).Reaches id attr args m →
      ¬m.ReadsMarks ⟨formatter.withIsolating true, []⟩ (formatter.withIsolating true)) :
    let isolating := (formatter.withIsolating true).format id attr args
    let plain := (formatter.withIsolating false).format id attr args
    plain.errors = isolating.errors ∧ plain.text = stripIsolates isolating.text := by
  intro isolating plain
  have hbuiltins : (formatter.withIsolating true).functions = .builtins := hfunctions
  have hstart : MarksApart ⟨formatter.withIsolating true, []⟩ (formatter.withIsolating true)
      ((formatter.withIsolating true).start id attr args) :=
    ⟨unmarked_start hcatalog hid hattr hargs, hreads⟩
  -- the two runs mirror each other from the first reference to its text
  have hmirrors : Mirrors stripIsolates
      (Session.resolve ⟨formatter.withIsolating true, []⟩ formatter.limit
        (formatter.withIsolating true) ⟨.standalone, []⟩
        (.message ⟨id⟩ (attr.map Identifier.mk)) >>= Resolved.text)
      (Session.resolve ⟨formatter.withIsolating false, []⟩ formatter.limit
        (formatter.withIsolating false) ⟨.standalone, []⟩
        (.message ⟨id⟩ (attr.map Identifier.mk)) >>= Resolved.text) { args := args } :=
    (MarksApart.resolve (hbuiltins ▸ FunctionTable.isPlain_builtins)
      (hbuiltins ▸ FunctionTable.unmarked_builtins) formatter.limit _ _ _ hstart).bind
      fun result _ _ => mirrors_text result
  -- a run that breaks off leaves its label, which holds no marks to take out
  have hlabel : Unmarked (braced (referenceLabel id attr)) := by
    refine unmarked_braced (unmarked_referenceLabel hid fun name hname => hattr name ?_)
    exact Option.mem_toList.1 hname
  have hisolating : isolating = _ := congrArg Prod.fst
    ((formatter.withIsolating true).session_format_eq id attr args (Nat.le_refl formatter.limit))
  have hplain : plain = _ := congrArg Prod.fst
    ((formatter.withIsolating false).session_format_eq id attr args (Nat.le_refl formatter.limit))
  rw [hisolating, hplain]
  unfold contained
  rw [hmirrors]
  cases (Session.resolve ⟨formatter.withIsolating true, []⟩ formatter.limit
    (formatter.withIsolating true) ⟨.standalone, []⟩ (.message ⟨id⟩ (attr.map Identifier.mk)) >>=
      Resolved.text) { args := args } with
  | returned text scope => exact ⟨rfl, rfl⟩
  | brokenOff thread => exact ⟨rfl, (stripIsolates_eq_self_iff.2 hlabel).symm⟩

end Unmarked

/-- A message that places values: one in a text, one as a function writes it, and a variant that is
chosen by a number. -/
def announcement : List Char :=
  "hi = \x7b $name \x7d! \x7b $n ->\n [0] Hi\n *[other] You have \x7b NUMBER($n) \x7d news.\n\x7d".toList

/-- A formatter for the announcement. -/
def announcer : Formatter where
  catalog := (Catalog.empty.add (Resource.parse {} announcement)).1

/-- Ana has three news. -/
def ana : Arguments :=
  .ofList [("name", .string "Ana"), ("n", .number { value := floatOfNat 3 })]

/-- Nothing in the announcement reads a reference, so isolation shows in its text only. -/
theorem isolation_presentational_announcement :
    announcer.catalog.Unmarked ∧
      ((announcer.withIsolating true).format "hi" none ana).text =
        "\u2068Ana\u2069! \u2068You have \u20683\u2069 news.\u2069".toList ∧
      ((announcer.withIsolating false).format "hi" none ana).text =
        "Ana! You have 3 news.".toList := by
  have hcatalog : announcer.catalog.Unmarked := by decide +kernel
  have hid : Unmarked "hi".toList := by decide
  have hattr (name : String) (h : none = some name) : Unmarked name.toList := nomatch h
  have hname : Unmarked "Ana".toList := by decide
  have hargs : ana.Unmarked := Arguments.unmarked_ofList
    (List.forall_mem_cons.2 ⟨hname, List.forall_mem_singleton.2 trivial⟩)
  have hdirect : announcer.catalog.subtrees.all PatternElement.readsDirectly = true := by
    decide +kernel
  have htext : ((announcer.withIsolating true).format "hi" none ana).text =
      "\u2068Ana\u2069! \u2068You have \u20683\u2069 news.\u2069".toList := by
    decide +kernel
  have hsame := isolation_presentational hcatalog hid hattr hargs rfl fun m hm =>
    not_readsMarks hcatalog hid hattr hargs FunctionTable.isPlain_builtins
      FunctionTable.unmarked_builtins (List.all_eq_true.1 hdirect) hm
  refine ⟨hcatalog, htext, ?_⟩
  rw [hsame.2, htext]
  decide +kernel

/-- A message that asks for the attribute of a term.  The attribute places a number in a text. -/
def question : List Char :=
  joinLines <| List.map String.toList
    ["-t = T",
      "    .a = x\x7b 1 \x7d",
      "m = \x7b -t.a ->",
      "    [x1] one",
      "   *[other] other",
      "\x7d"]

/-- A formatter for the question. -/
def asker : Formatter where
  catalog := (Catalog.empty.add (Resource.parse {} question)).1

/-- It is not enough that what is given holds no marks.  The selector of the question comes to a
text with a number in it, which is one of the keys only if the number is not isolated. -/
theorem marks_matter_where_read :
    ¬∀ (formatter : Formatter) (id : String) (attr : Option String) (args : Arguments),
      formatter.functions = .builtins → formatter.catalog.Unmarked → Unmarked id.toList →
      (∀ name, attr = some name → Unmarked name.toList) → args.Unmarked →
      ((formatter.withIsolating false).format id attr args).errors =
          ((formatter.withIsolating true).format id attr args).errors ∧
        ((formatter.withIsolating false).format id attr args).text =
          stripIsolates ((formatter.withIsolating true).format id attr args).text := by
  intro hclaim
  have hattr (name : String) (h : none = some name) : Unmarked name.toList := nomatch h
  have hsame := (hclaim asker "m" none .empty rfl (by decide +kernel) (by decide) hattr
    Arguments.unmarked_empty).2
  have hisolating : ((asker.withIsolating true).format "m" none .empty).text =
    "other".toList := by decide +kernel
  have hplain : ((asker.withIsolating false).format "m" none .empty).text = "one".toList := by
    decide +kernel
  rw [hisolating, hplain] at hsame
  exact absurd hsame (by decide)

end Formatter

end Fluent
