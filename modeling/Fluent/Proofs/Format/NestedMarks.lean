/-
# Isolation marks are nested

A placed value is put between two marks, whatever it is: the text of a literal, of an argument or of
a function, a placeholder, or a text that holds marks itself because it was put together from placed
values.  So all marks of a text come in pairs that lie side by side or one inside the other.

* `MarksNested.append`, `MarksNested.isolated` : what is put together from nested marks is nested;
* `Moment.Unmarked.resolve` : so is what any expression comes to;
* `Formatter.format_marksNested` : so a formatter's texts have nested marks.
-/
import Fluent.Proofs.Format.ParsedNames
import Fluent.Proofs.Format.Presentation

namespace Fluent

open Resolving

/-! ## Texts -/

/-- The marks of the text are nested: each of its beginnings opens at least as many stretches as it
closes, and the whole text closes all that it opens. -/
structure MarksNested (text : List Char) : Prop where
  fronts : ∀ front, front <+: text → front.count isolateClose ≤ front.count isolateOpen
  whole : text.count isolateClose = text.count isolateOpen

/-- An unmarked text has neither opening nor closing marks. -/
theorem Unmarked.count_eq_zero {text : List Char} (h : Unmarked text) :
    text.count isolateOpen = 0 ∧ text.count isolateClose = 0 :=
  ⟨List.count_eq_zero.2 fun hmem => (h _ hmem).1 rfl,
    List.count_eq_zero.2 fun hmem => (h _ hmem).2 rfl⟩

/-- A text without marks has nothing to nest. -/
theorem Unmarked.marksNested {text : List Char} (h : Unmarked text) : MarksNested text where
  fronts front hfront := by
    have hcount := (h.subset hfront.subset).count_eq_zero
    omega
  whole := by
    have hcount := h.count_eq_zero
    omega

namespace MarksNested

variable {s t : List Char}

/-- Texts with nested marks may follow each other. -/
theorem append (hs : MarksNested s) (ht : MarksNested t) : MarksNested (s ++ t) where
  fronts front hfront := by
    have hfirst := hs.fronts _ (List.take_prefix front.length s)
    have hsecond := ht.fronts _ (List.take_prefix (front.length - s.length) t)
    rw [List.prefix_iff_eq_take.1 hfront, List.take_append, List.count_append, List.count_append]
    omega
  whole := by
    rw [List.count_append, List.count_append, hs.whole, ht.whole]

/-- A text with nested marks may be isolated. -/
theorem isolated (h : MarksNested t) (isolate : Bool) : MarksNested (isolated isolate t) := by
  cases isolate with
  | false => exact h
  | true =>
    constructor
    · intro front hfront
      cases front with
      | nil => exact Nat.le_refl 0
      | cons ch front =>
        obtain ⟨rfl, hrest⟩ := List.cons_prefix_cons.1 hfront
        -- the mark that opens makes up for the one that closes
        have hinner := h.fronts _ (List.take_prefix front.length t)
        have hlast : (([isolateClose].take (front.length - t.length)).count isolateClose) ≤ 1 :=
          Nat.le_trans List.count_le_length (List.length_take_le' _ _)
        rw [List.count_cons_self, List.count_cons_of_ne (by decide),
          List.prefix_iff_eq_take.1 hrest]
        simp only [List.append_eq, List.take_append, List.count_append]
        omega
    · have hends : ([isolateOpen].count isolateClose = 0 ∧ [isolateOpen].count isolateOpen = 1) ∧
          [isolateClose].count isolateClose = 1 ∧ [isolateClose].count isolateOpen = 0 := by decide
      have hwhole := h.whole
      show ([isolateOpen] ++ t ++ [isolateClose]).count isolateClose =
        ([isolateOpen] ++ t ++ [isolateClose]).count isolateOpen
      rw [List.count_append, List.count_append, List.count_append, List.count_append]
      omega

end MarksNested

/-! ## Values and results -/

/-- The marks of the value are nested if it is a text. -/
def Value.MarksNested : Value → Prop
  | .string text => Fluent.MarksNested text.toList
  | _ => True

/-- The marks of an unmarked value are nested, as there are none. -/
theorem Value.Unmarked.marksNested {v : Value} (h : v.Unmarked) : v.MarksNested := by
  cases v with
  | string text => exact Fluent.Unmarked.marksNested h
  | number | none => trivial

/-- The marks of a value are nested; a placeholder holds none. -/
def Resolved.MarksNested : Resolved → Prop
  | .value v => v.MarksNested
  | .placeholder label => Unmarked label.toList

/-- A text result has the marks of its text. -/
theorem Resolved.marksNested_ofText {text : List Char} (h : Fluent.MarksNested text) :
    (Resolved.ofText text).MarksNested := by
  show Fluent.MarksNested (String.ofList text).toList
  rwa [String.toList_ofList]

namespace Resolving

variable {α β : Type} {P : α → Prop} {Q : β → Prop} {scope : Scope}

/-- Whatever the resolution returns from the scope is good. -/
def Gives (good : α → Prop) (m : Resolving α) (scope : Scope) : Prop :=
  ∀ a after, m scope = .returned a after → good a

/-- A good result is given. -/
theorem gives_pure {a : α} (h : P a) : Gives P (pure a) scope := by
  rintro _ _ ⟨⟩
  exact h

/-- Steps in a row give what the last one gives, wherever the first one returns a good result. -/
theorem Gives.bind {first : Resolving α} {next : α → Resolving β} (h : Gives P first scope)
    (h' : ∀ a mid, first scope = .returned a mid → P a → Gives Q (next a) mid) :
    Gives Q (first >>= next) scope := by
  intro b after hb
  obtain ⟨a, mid, hfirst, hnext⟩ := bind_eq_returned.1 hb
  exact h' a mid hfirst (h a mid hfirst) b after hnext

/-- After something of which nothing need be known. -/
theorem gives_after {first : Resolving α} {next : α → Resolving β}
    (h : ∀ a mid, first scope = .returned a mid → Gives Q (next a) mid) :
    Gives Q (first >>= next) scope :=
  Gives.bind (P := fun _ => True) (fun _ _ _ => trivial) fun a mid hfirst _ => h a mid hfirst

/-- A good result may be mapped to another kind of good ones. -/
theorem Gives.map {m : Resolving α} {f : α → β} (h : Gives P m scope)
    (hf : ∀ a, P a → Q (f a)) : Gives Q (f <$> m) scope :=
  h.bind fun a _ _ ha => gives_pure (hf a ha)

/-- A placeholder without marks has nested ones. -/
theorem gives_failed {error : ResolverError} {label : String} (h : Unmarked label.toList) :
    Gives Resolved.MarksNested (failed error label) scope :=
  gives_after fun _ _ _ => gives_pure h

/-- What is left of an inner scope does not change the result. -/
theorem Gives.leaving {m body : Resolving α} {inner : Scope} {leave : Scope → Scope}
    {stop : Thread → Thread} (h : Gives P body inner)
    (hm : m scope = (body inner).leaving leave stop) : Gives P m scope := by
  intro a after ha
  rw [hm] at ha
  obtain ⟨last, hbody, -⟩ := Outcome.leaving_eq_returned.1 ha
  exact h a last hbody

/-- A guarded body gives good results on both branches of the guard. -/
theorem gives_guarded {limit : Nat} {atLimit body : Resolving α} (hl : Gives P atLimit scope)
    (h : ∀ depth, scope.thread.depth.enter? limit = some depth →
      Gives P body (scope.withDepth depth)) : Gives P (guarded limit atLimit body) scope := by
  cases he : scope.thread.depth.enter? limit with
  | none =>
    intro a after ha
    rw [guarded_of_full he] at ha
    exact hl a after ha
  | some depth => exact (h depth he).leaving (guarded_of_entered he)

/-- The text of a result with nested marks has nested marks; numbers are written without marks. -/
theorem gives_text {result : Resolved} (h : result.MarksNested) :
    Gives MarksNested result.text scope := by
  cases result with
  | placeholder label => exact gives_pure (unmarked_braced h).marksNested
  | value v =>
    intro text after htext
    change ofOption v.text? scope = _ at htext
    cases hv : v.text? with
    | none =>
      rw [hv] at htext
      cases htext
    | some own =>
      rw [hv] at htext
      cases htext
      cases v with
      | string own =>
        cases hv
        exact h
      | number n => exact (NumberValue.unmarked_text? hv).marksNested
      | none =>
        cases hv
        exact Unmarked.marksNested (List.forall_mem_nil _)

end Resolving

/-! ## Runs -/

namespace Moment.Unmarked

variable {session : Session} {formatter : Formatter}

/-- With the given room, expressions come to results with nested marks. -/
def NestsAt (session : Session) (formatter : Formatter) (room : Nat) : Prop :=
  ∀ place e scope, Moment.Unmarked formatter ⟨room, .expression place e, scope⟩ →
    Gives Resolved.MarksNested (session.resolve room formatter place e) scope

variable {room : Nat} (hroom : NestsAt session formatter room)
include hroom

/-- The elements of a pattern give nested marks, by induction on those left. -/
theorem elements (isolating : Bool) (place : Place) (list : List PatternElement) (index : Nat)
    (scope : Scope)
    (h : Moment.Unmarked formatter ⟨room, .elements isolating place index list, scope⟩) :
    Gives MarksNested ((session.level room formatter).elements isolating place index list)
      scope := by
  induction list generalizing index scope with
  | nil => exact gives_pure (Fluent.Unmarked.marksNested (List.forall_mem_nil _))
  | cons element rest ih =>
    cases element with
    | text value =>
      have hvalue : Fluent.Unmarked value.toList :=
        h.texts (.text value) List.mem_cons_self value List.mem_cons_self
      have hnext := @step session _ _ _ h .text
      exact (ih _ _ hnext).map fun _ htexts => hvalue.marksNested.append htexts
    | placeable e =>
      have hplaced := @step session _ _ _ h .placeable
      refine (hroom _ _ _ hplaced).bind fun result mid he hresult => ?_
      refine (gives_text hresult).bind fun text written htext hnested => ?_
      exact (ih _ _ (h.step (.following he htext))).map fun _ htexts =>
        (hnested.isolated _).append htexts

theorem pattern {place : Place} {label : String} {p : Pattern} {scope : Scope}
    (h : Moment.Unmarked formatter ⟨room, .pattern place label p, scope⟩) :
    Gives MarksNested ((session.level room formatter).pattern place label p) scope := by
  refine gives_after fun onTrail mid hmid => ?_
  obtain ⟨rfl, rfl⟩ := Outcome.returned.inj hmid
  by_cases hon : place ∈ scope.trail
  · rw [decide_eq_true hon, if_pos rfl]
    exact gives_after fun _ _ _ =>
      gives_pure (unmarked_braced (h.label place label p rfl)).marksNested
  · rw [decide_eq_false hon, if_neg Bool.false_ne_true]
    have hnext := @step session _ _ _ h (.elements hon)
    exact (elements hroom _ _ _ _ _ hnext).leaving (withPlace_eq place _ scope)

section Expression

variable {place : Place} {e : Expression} {scope : Scope} {depth : Depth}
  (h : Moment.Unmarked formatter ⟨room + 1, .expression place e, scope⟩)
  (henter : scope.thread.depth.enter? formatter.limit = some depth)
include h henter

theorem message {id : Identifier} {attr : Option Identifier} (he : e.peeled = .message id attr) :
    Gives Resolved.MarksNested
      ((session.level room formatter).message id.name (attr.map (·.name)))
      (scope.withDepth depth) := by
  have hown := h.ownTexts he
  have hid := hown _ List.mem_cons_self
  have hlabel := unmarked_referenceLabel hid
    fun name hname => hown name (List.mem_cons_of_mem _ hname)
  let level := session.level room formatter
  rcases level.message_cases id.name (attr.map (·.name)) with ⟨p, hp, heq⟩ | ⟨hnone, -⟩
  · rw [heq]
    have hnext := @step session _ _ _ h (.message henter he hp)
    exact (pattern hroom hnext).map fun _ => Resolved.marksNested_ofText
  · obtain ⟨error, label, hkind, heq, -⟩ := level.message_of_none level rfl hnone
    rw [heq]
    refine gives_failed ?_
    rcases hkind with rfl | rfl
    · exact hid
    · exact hlabel

theorem term {id : Identifier} {attr : Option Identifier} {arguments : Option CallArguments}
    (he : e.peeled = .term id attr arguments) :
    Gives Resolved.MarksNested
      ((session.level room formatter).term id.name (attr.map (·.name)) arguments)
      (scope.withDepth depth) := by
  have hown := h.ownTexts he
  have hid := hown _ List.mem_cons_self
  have hlabel := unmarked_referenceLabel hid
    fun name hname => hown name (List.mem_cons_of_mem _ (List.mem_append_left _ hname))
  let level := session.level room formatter
  rcases level.term_cases id.name (attr.map (·.name)) arguments with ⟨p, hp, heq⟩ | ⟨hnone, -⟩
  · rw [heq]
    have hnext := @step session _ _ _ h (.term henter he hp)
    exact ((pattern hroom hnext).leaving (withLocalArgs_eq _ _ _)).map
      fun _ => Resolved.marksNested_ofText
  · obtain ⟨error, label, hkind, heq, -⟩ := level.term_of_none level rfl hnone arguments
    rw [heq]
    refine gives_failed ?_
    rcases hkind with rfl | rfl
    · exact unmarked_string_append (by decide) hid
    · exact unmarked_string_append (by decide) hlabel

omit hroom henter in
/-- A function call gives nested marks: its functions put none in. -/
theorem function (hplain : formatter.functions.IsPlain)
    (hfunctions : formatter.functions.Unmarked) {id : Identifier} {call : CallArguments}
    (he : e.peeled = .function id call) :
    Gives Resolved.MarksNested ((session.level room formatter).function place id.name call)
      (scope.withDepth depth) := by
  have hown := h.ownTexts he
  have hlabel : Fluent.Unmarked (id.name ++ "()").toList :=
    unmarked_string_append (hown _ List.mem_cons_self) (by decide)
  cases hf : formatter.functions.find? id.name with
  | none =>
    rw [Level.function_of_unknown _ hf]
    exact gives_failed hlabel
  | some f =>
    rw [Level.function_of_found _ hf]
    refine gives_after fun positional mid hvalues => ?_
    cases positional with
    | none => exact gives_pure hlabel
    | some values =>
      have hcall := hplain id.name f hf values (namedArguments call.named)
      show Gives Resolved.MarksNested
        ((session.level room formatter).run (f values (namedArguments call.named)) >>=
          Level.afterCall id.name) mid
      cases hresult : f values (namedArguments call.named) with
      | value v =>
        have hv := hfunctions id.name f hf values (namedArguments call.named) v hresult
        exact gives_pure hv.marksNested
      | failure error => exact gives_failed hlabel
      | breakOff => exact gives_failed hlabel
      | format =>
        rw [hresult] at hcall
        exact hcall.elim

/-- A selection gives nested marks, those of the chosen variant. -/
theorem select {s : Selection} (he : e.peeled = .select s) :
    Gives MarksNested ((session.level room formatter).select place s) (scope.withDepth depth) := by
  rw [Level.select_eq]
  refine gives_after fun result mid hresult => gives_after fun index chosen hindex => ?_
  refine gives_after fun v after hv => ?_
  cases hfound : s.variants[index]? with
  | none =>
    rw [hfound] at hv
    cases hv
  | some found =>
    rw [hfound] at hv
    obtain ⟨rfl, rfl⟩ := Outcome.returned.inj hv
    exact pattern hroom (h.step (.variant henter he hresult hindex hfound))

theorem expression (hplain : formatter.functions.IsPlain)
    (hfunctions : formatter.functions.Unmarked) :
    Gives Resolved.MarksNested ((session.level room formatter).expression place e.peeled)
      (scope.withDepth depth) := by
  cases he : e.peeled with
  | string literal =>
    have hvalue : Fluent.Unmarked literal.value.toList := h.ownTexts he _ List.mem_cons_self
    exact gives_pure hvalue.marksNested
  | number literal => exact gives_pure trivial
  | var id =>
    have hlabel : Fluent.Unmarked ("$" ++ id.name).toList :=
      unmarked_string_append (by decide) (h.ownTexts he _ List.mem_cons_self)
    refine gives_after fun found mid hfound => ?_
    obtain ⟨hvalue, rfl⟩ := Outcome.returned.inj hfound
    cases found with
    | none => exact gives_failed hlabel
    | some v => exact gives_pure (h.scope.visibleArgs id.name v hvalue).marksNested
  | message id attr => exact message hroom h henter he
  | term id attr arguments => exact term hroom h henter he
  | function id call => exact function h hplain hfunctions he
  | select s => exact (select hroom h henter he).map fun _ => Resolved.marksNested_ofText
  | placeable inner => exact absurd he (e.peeled_ne_placeable inner)

end Expression

omit hroom in
/-- **Where no text at hand holds marks, all that is resolved has nested marks.** -/
theorem resolve (hplain : formatter.functions.IsPlain)
    (hfunctions : formatter.functions.Unmarked) (room : Nat) :
    NestsAt session formatter room := by
  induction room with
  | zero => exact fun place e scope _ => gives_failed (by decide)
  | succ room ih =>
    intro place e scope h
    exact gives_guarded (gives_failed (by decide)) fun depth henter =>
      expression ih h henter hplain hfunctions

end Moment.Unmarked

/-! ## Format calls -/

/-- What is asked for is formatted with nested marks, whatever room is left for it: where the call
breaks off, its label has no marks either. -/
theorem Session.marksNested_formatAt {session : Session} {formatter : Formatter}
    (hfunctions : formatter.functions = .builtins) (hcatalog : formatter.catalog.Unmarked)
    {id : String} {attr : Option String} {args : Arguments} (hid : Unmarked id.toList)
    (hattr : ∀ name, attr = some name → Unmarked name.toList) (hargs : args.Unmarked)
    (room : Nat) (thread : Thread) :
    MarksNested (session.formatAt room formatter ⟨.message id attr, args⟩ thread).1.text := by
  have hplain : formatter.functions.IsPlain := hfunctions ▸ FunctionTable.isPlain_builtins
  have hmarks : formatter.functions.Unmarked := hfunctions ▸ FunctionTable.unmarked_builtins
  have hstart := Formatter.unmarked_start hcatalog hid hattr hargs
  have hmoment : Moment.Unmarked formatter
      ⟨room, (formatter.start id attr args).task, { args := args, thread := thread }⟩ :=
    ⟨hcatalog, hstart.texts, hstart.label, hargs, nofun⟩
  have hnests : Moment.Unmarked.NestsAt session formatter room :=
    Moment.Unmarked.resolve hplain hmarks room
  have hgives := (hnests _ _ _ hmoment).bind fun _ _ _ hresult => gives_text hresult
  rw [session.formatAt_message room formatter id attr args thread ⟨.standalone, []⟩]
  unfold contained
  split
  · rename_i text after htext
    exact hgives text after htext
  · have hlabel := unmarked_referenceLabel hid fun name hname =>
      hattr name (Option.mem_toList.1 hname)
    exact (unmarked_braced hlabel).marksNested

namespace Formatter

/-- **Isolation marks are nested in every text.**  With the built-in functions, and with no marks in
the texts and string values of the catalog, in the texts of arguments and in what is asked for, each
beginning of the formatted text opens at least as many isolated stretches as it closes, and the
whole text equally many.  Names that were read from a source never hold marks; those of entries that
were made by hand must not.  The rest of the settings does not matter, nor how deep the call is
nested in others, nor which problems come up. -/
theorem format_marksNested {formatter : Formatter} {id : String} {attr : Option String}
    {args : Arguments} (hfunctions : formatter.functions = .builtins)
    (hnames : formatter.catalog.IsParsed ∨ formatter.catalog.NamesUnmarked)
    (hvalues : formatter.catalog.ValuesUnmarked) (hid : Unmarked id.toList)
    (hattr : ∀ name, attr = some name → Unmarked name.toList) (hargs : args.Unmarked) :
    MarksNested (formatter.format id attr args).text ∧
      ∀ (others : List Formatter) (thread : Thread), MarksNested
        (Session.format ⟨formatter, others⟩ ⟨.message id attr, args⟩ thread).1.text := by
  have hcatalog := Catalog.unmarked_of_values hnames hvalues
  have hall := fun (session : Session) room thread =>
    session.marksNested_formatAt hfunctions hcatalog hid hattr hargs room thread
  exact ⟨hall _ _ _, fun _ _ => hall _ _ _⟩

/-- A greeting that comes back to itself, selects, calls a function and asks for what there is
not. -/
def echoSource : List Char :=
  ("echo = a \x7b $name \x7d b \x7b echo \x7d \x7b missing \x7d c \x7b $n ->\n" ++
    "    [one] \x7b -term(x: \"y\") \x7d \x7b NUMBER($m) \x7d\n   *[other] d\n\x7d\n" ++
    "-term = \x7b $x \x7d \x7b $z \x7d\n").toList

/-- A formatter for the greeting. -/
def echoing : Formatter where
  catalog := (Catalog.empty.add (Resource.parse {} echoSource)).1
  locale := { language := some "en" }

/-- One person, and a text that is no number. -/
def named : Arguments :=
  .ofList [("name", .string "Ana"), ("n", .ofFloat (floatOfNat 1)), ("m", .string "many")]

/-- Four problems come up in the middle of the text: a cycle, a missing message, a missing variable
and a function that fails. -/
theorem format_marksNested_echoing :
    (echoing.format "echo" none named).errors.length = 4 ∧
      (echoing.format "echo" none named).text.count isolateOpen = 5 ∧
      MarksNested (echoing.format "echo" none named).text := by
  have hparsed : echoing.catalog.IsParsed := by
    dsimp only [echoing]
    exact Catalog.isParsed_empty.add {} echoSource
  have hvalues : ∀ x ∈ echoing.catalog.subtrees, ∀ text ∈ x.values, Unmarked text.toList := by
    decide +kernel
  have hattr (name : String) (h : none = some name) : Unmarked name.toList := nomatch h
  have hana : Unmarked "Ana".toList := by decide
  have hmany : Unmarked "many".toList := by decide
  have hargs : named.Unmarked := Arguments.unmarked_ofList (List.forall_mem_cons.2
    ⟨hana, List.forall_mem_cons.2 ⟨trivial, List.forall_mem_singleton.2 hmany⟩⟩)
  exact ⟨by decide +kernel, by decide +kernel,
    (format_marksNested rfl (.inl hparsed) hvalues (by decide) hattr hargs).1⟩

end Formatter

end Fluent
