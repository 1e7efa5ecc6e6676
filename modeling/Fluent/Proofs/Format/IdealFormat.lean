/-
# Formatting without problems is ideal evaluation

A formatter leaves a placeholder wherever something goes wrong, stops at a limit and breaks cycles.
Each of these is accompanied by a problem, so a text without problems is the ideal one.  Conversely,
if the ideal evaluation is acyclic and stays within the limit, nothing of this happens.

* `Level.yields_expression` : one level finds the values of such evaluations, and no others without
  a problem;
* `Session.yields_resolve` : so do all levels together;
* `Formatter.format_eq_iff_ideal` : so does formatting.
-/
import Fluent.Proofs.Format.Evaluates
import Fluent.Proofs.Format.Room

namespace Fluent

open Resolving

/-! ## One level -/

/-- The result is a value, and a good one. -/
def Resolved.IsValue (good : Value → Prop) (result : Resolved) : Prop :=
  ∃ v, good v ∧ .value v = result

namespace Resolving

variable {β : Type} {s : Setting}

/-- After a placeholder nothing is free of problems. -/
theorem yields_bind_value {first : Resolving Resolved} {next : Resolved → Resolving β}
    {P : Value → Prop} {Q : Value → β → Prop} (h : Yields s first (Resolved.IsValue P))
    (hplaceholder : ∀ label, Frames (next (.placeholder label)))
    (h' : ∀ v, Yields s (next (.value v)) (Q v)) :
    Yields s (first >>= next) fun b => ∃ v, P v ∧ Q v b := by
  refine yields_bind_only Resolved.value (fun _ _ => Resolved.value.inj) h (fun result hne => ?_) h'
  cases result with
  | value v => exact absurd rfl (hne v)
  | placeholder label => exact hplaceholder label

/-- Where there is no good value, there is a problem. -/
theorem yields_failed_of {good : Value → Prop} (h : ∀ v, ¬good v) (error : ResolverError)
    (label : String) : Yields s (failed error label) (Resolved.IsValue good) :=
  (yields_failed error label).congr fun _ => ⟨False.elim, fun ⟨v, hv, _⟩ => h v hv⟩

/-- A text as a result is a value. -/
theorem yields_ofText {m : Resolving (List Char)} {P : List Char → Prop} {good : Value → Prop}
    (h : Yields s m P) (hgood : ∀ v, good v ↔ ∃ text, P text ∧ .string (String.ofList text) = v) :
    Yields s (Resolved.ofText <$> m) (Resolved.IsValue good) := by
  refine (yields_map _ h).congr fun result => ⟨?_, ?_⟩
  · rintro ⟨text, hp, rfl⟩
    exact ⟨_, (hgood _).2 ⟨text, hp, rfl⟩, rfl⟩
  · rintro ⟨v, hv, rfl⟩
    obtain ⟨text, hp, rfl⟩ := (hgood v).1 hv
    exact ⟨text, hp, rfl⟩

end Resolving

namespace Level

/-- What is resolved one level deeper, at the given depth, has the values of acyclic evaluations
within the limit, and no others without a problem; functions ask for no texts. -/
structure IsIdeal (depth : Nat) (level : Level) : Prop where
  plain : level.formatter.functions.IsPlain
  resolve : ∀ {s : Setting}, s.depth = depth → ∀ place e,
    Yields s (level.resolve place e) (Resolved.IsValue (Evaluates level.formatter s place e))

variable {level : Level} {s : Setting}

/-! ### Patterns -/

/-- On an ideal level the elements of a pattern yield their texts in a row. -/
theorem yields_elements (h : level.IsIdeal s.depth) (hs : s.depth ≤ level.formatter.limit)
    (isolating : Bool) (place : Place) (list : List PatternElement) (index : Nat) :
    Yields s (level.elements isolating place index list)
      (TextEvaluates level.formatter s isolating place index list) := by
  induction list generalizing index with
  | nil => exact (yields_pure _).congr fun text => (textEvaluates_nil hs).symm
  | cons element rest ih =>
    cases element with
    | text value => exact (yields_map _ (ih _)).congr fun text => textEvaluates_text.symm
    | placeable e =>
      have htexts := fun own => yields_map (isolated (isolating && e.needsIsolation) own ++ ·)
        (ih (index + 1))
      -- a placeholder is written too, but its problem has been recorded before
      have hplaceholder := fun label => frames_bind (congruence_frames.text (.placeholder label))
        fun own => (htexts own).frames
      have hvalue := fun v : Value => yields_bind (yields_ofOption v.text?) htexts
      exact (yields_bind_value (h.resolve rfl (place.step index) e) hplaceholder hvalue).congr
        fun text => textEvaluates_placeable.symm

/-- A pattern has what its elements have while it is being resolved, unless it is being resolved
already. -/
theorem yields_pattern_of {place : Place} {p : Pattern} {P : List Char → Prop}
    (h : Yields (s.inside place) (level.elements (level.isolates p) place 0 p) P)
    (label : String) :
    Yields s (level.pattern place label p) fun text => place ∉ s.trail ∧ P text := by
  have helements : Yields s (.withPlace place (level.elements (level.isolates p) place 0 p)) P :=
    yields_withPlace place h
  have hbranches : ∀ onTrail : Bool, Yields s
      (if onTrail then .record (.cyclic label) >>= fun _ => pure (braced label)
        else .withPlace place (level.elements (level.isolates p) place 0 p))
      fun text => onTrail = false ∧ P text := by
    intro onTrail
    cases onTrail with
    | true =>
      have hcyclic : Yields s (record (.cyclic label) >>= fun _ => pure (braced label))
          fun _ => False := yields_record_bind _ (frames_pure _)
      rw [if_pos rfl]
      exact hcyclic.congr fun text => by simp
    | false =>
      rw [if_neg Bool.false_ne_true]
      exact helements.congr fun text => by simp
  refine (yields_bind (yields_isOnTrail place) hbranches).congr fun text => ?_
  simp

theorem yields_pattern (h : level.IsIdeal s.depth) (hs : s.depth ≤ level.formatter.limit)
    (place : Place) (label : String) (p : Pattern) :
    Yields s (level.pattern place label p) (PatternEvaluates level.formatter s place p) :=
  yields_pattern_of (yields_elements (s := s.inside place) h hs _ _ _ _) label

/-! ### References -/

/-- A variable yields the value that it was given. -/
theorem yields_variableValue (name : String) :
    Yields s (variableValue name) (Resolved.IsValue fun v => s.vars.find? name = some v) := by
  unfold variableValue
  refine Yields.congr (yields_bind
    (Q := fun found result => Resolved.IsValue (fun v => found = some v) result)
    (yields_valueOf? name) fun found => ?_) fun result => by simp
  cases found with
  | none => exact yields_failed_of nofun _ _
  | some value => exact (yields_pure _).congr fun result => by simp [Resolved.IsValue]

/-- A message or an attribute with a pattern is the text of that pattern; without one there is only
a problem. -/
theorem message_cases (level : Level) (id : String) (attr : Option String) :
    (∃ p, level.formatter.catalog.messagePattern? id attr = some p ∧ level.message id attr =
      Resolved.ofText <$> level.pattern ⟨.message id attr, []⟩ (referenceLabel id attr) p) ∨
    (level.formatter.catalog.messagePattern? id attr = none ∧ ∃ error label,
      error.category = .reference ∧ level.message id attr = failed error label) := by
  unfold Catalog.messagePattern? message
  cases level.formatter.catalog.message? id with
  | none => exact .inr ⟨rfl, _, _, rfl, rfl⟩
  | some found =>
    cases attr with
    | none =>
      dsimp only
      cases found.value with
      | none => exact .inr ⟨rfl, _, _, rfl, rfl⟩
      | some p => exact .inl ⟨p, rfl, rfl⟩
    | some name =>
      dsimp only
      cases findAttribute? name found.attributes with
      | none => exact .inr ⟨rfl, _, _, rfl, rfl⟩
      | some part => exact .inl ⟨part.value, rfl, rfl⟩

/-- The same of a term; it sees only the values that its reference gives it. -/
theorem term_cases (level : Level) (id : String) (attr : Option String)
    (arguments : Option CallArguments) :
    (∃ p, level.formatter.catalog.termPattern? id attr = some p ∧ level.term id attr arguments =
      Resolved.ofText <$> .withLocalArgs (termArguments arguments)
        (level.pattern ⟨.term id attr, []⟩ ("-" ++ referenceLabel id attr) p)) ∨
    (level.formatter.catalog.termPattern? id attr = none ∧ ∃ error label,
      error.category = .reference ∧ level.term id attr arguments = failed error label) := by
  have hargs : (arguments.map fun call => namedArguments call.named).getD .empty =
      termArguments arguments := by
    cases arguments <;> rfl
  unfold Catalog.termPattern? term
  rw [hargs]
  cases level.formatter.catalog.term? id with
  | none => exact .inr ⟨rfl, _, _, rfl, rfl⟩
  | some found =>
    cases attr with
    | none => exact .inl ⟨found.value, rfl, rfl⟩
    | some name =>
      dsimp only
      cases findAttribute? name found.attributes with
      | none => exact .inr ⟨rfl, _, _, rfl, rfl⟩
      | some part => exact .inl ⟨part.value, rfl, rfl⟩

theorem yields_message (h : level.IsIdeal s.deeper.depth) (hs : s.depth < level.formatter.limit)
    (place : Place) (id : Identifier) (attr : Option Identifier) :
    Yields s.deeper (level.message id.name (attr.map (·.name)))
      (Resolved.IsValue (Evaluates level.formatter s place (.message id attr))) := by
  rcases level.message_cases id.name (attr.map (·.name)) with
    ⟨p, hp, heq⟩ | ⟨hp, error, label, -, heq⟩
  · rw [heq]
    refine yields_ofText (yields_pattern h hs _ _ p) fun v => ?_
    simp [evaluates_message, hp]
  · rw [heq]
    exact yields_failed_of (by simp [evaluates_message, hp]) error label

theorem yields_term (h : level.IsIdeal s.deeper.depth) (hs : s.depth < level.formatter.limit)
    (place : Place) (id : Identifier) (attr : Option Identifier)
    (arguments : Option CallArguments) :
    Yields s.deeper (level.term id.name (attr.map (·.name)) arguments)
      (Resolved.IsValue (Evaluates level.formatter s place (.term id attr arguments))) := by
  rcases level.term_cases id.name (attr.map (·.name)) arguments with
    ⟨p, hp, heq⟩ | ⟨hp, error, label, -, heq⟩
  · rw [heq]
    have hbody := yields_pattern (s := s.deeper.withVars (termArguments arguments)) h hs
    refine yields_ofText (yields_withLocalArgs _ (hbody _ _ p)) fun v => ?_
    simp [evaluates_term, hp]
  · rw [heq]
    exact yields_failed_of (by simp [evaluates_term, hp]) error label

/-! ### Calls -/

/-- On an ideal level the arguments of a call yield their values in order. -/
theorem yields_arguments (h : level.IsIdeal s.depth) (hs : s.depth ≤ level.formatter.limit)
    (place : Place) (list : List Expression) (index : Nat) :
    Yields s (level.arguments place index list) fun result => ∃ values,
      ArgumentsEvaluate level.formatter s place index list values ∧ some values = result := by
  induction list generalizing index with
  | nil =>
    refine (yields_pure _).congr fun result => ?_
    simp [argumentsEvaluate_nil hs]
  | cons e rest ih =>
    rw [arguments]
    refine Yields.congr (yields_bind_value (h.resolve rfl _ _) (fun label => frames_pure _)
      fun v => yields_map _ (ih _)) fun result => ?_
    constructor
    · rintro ⟨v, hv, _, ⟨others, hothers, rfl⟩, rfl⟩
      exact ⟨v :: others, argumentsEvaluate_cons.2 ⟨v, hv, others, hothers, rfl⟩, rfl⟩
    · rintro ⟨_, hvalues, rfl⟩
      obtain ⟨v, hv, others, hothers, rfl⟩ := argumentsEvaluate_cons.1 hvalues
      exact ⟨v, hv, _, ⟨others, hothers, rfl⟩, rfl⟩

/-- A call that asks for no texts ends with its value; if it refuses or breaks off, a problem is
left. -/
theorem yields_run {call : Call} (h : call.IsPlain) {next : CallResult → Resolving Resolved}
    (hvalue : ∀ v, next (.value v) = pure (.value v))
    (hfailure : ∀ error, ∃ problem label, next (.failure error) = failed problem label)
    (hbroken : ∃ problem label, next .brokenOff = failed problem label) :
    Yields s (level.run call >>= next) (Resolved.IsValue fun v => call = .value v) := by
  cases call with
  | value v =>
    show Yields s (next (.value v)) _
    rw [hvalue]
    exact (yields_pure _).congr fun result => by simp [Resolved.IsValue]
  | failure error =>
    obtain ⟨problem, label, heq⟩ := hfailure error
    show Yields s (next (.failure error)) _
    rw [heq]
    exact yields_failed_of nofun problem label
  | breakOff =>
    obtain ⟨problem, label, heq⟩ := hbroken
    show Yields s (next .brokenOff) _
    rw [heq]
    exact yields_failed_of nofun problem label
  | format place request resume => exact h.elim

theorem yields_function (h : level.IsIdeal s.deeper.depth) (hs : s.depth < level.formatter.limit)
    (place : Place) (id : Identifier) (call : CallArguments) :
    Yields s.deeper (level.function place id.name call)
      (Resolved.IsValue (Evaluates level.formatter s place (.function id call))) := by
  unfold function
  dsimp only
  cases hf : level.formatter.functions.find? id.name with
  | none => exact yields_failed_of (by simp [evaluates_function, hf]) _ _
  | some f =>
    refine Yields.congr (yields_bind_only some (fun _ _ => Option.some.inj)
      (yields_arguments h hs place call.positional 0) (fun positional hne => ?_) fun values =>
        yields_run (h.plain _ _ hf _ _) (fun _ => rfl) (fun _ => ⟨_, _, rfl⟩) ⟨_, _, rfl⟩)
      fun result => ?_
    · cases positional with
      | none => exact frames_pure _
      | some values => exact absurd rfl (hne values)
    · constructor
      · rintro ⟨values, hvalues, v, hresult, rfl⟩
        exact ⟨v, (evaluates_function id call).2 ⟨f, hf, values, hvalues, hresult⟩, rfl⟩
      · rintro ⟨v, hv, rfl⟩
        obtain ⟨g, hg, values, hvalues, hresult⟩ := (evaluates_function id call).1 hv
        obtain rfl := Option.some.inj (hf.symm.trans hg)
        exact ⟨values, hvalues, v, hresult, rfl⟩

/-! ### Selections -/

/-- A place that is chosen is yielded, as it is the only one. -/
theorem yields_chosen {selection : Selection} {v : Value} {index : Nat}
    (h : Chooses level.formatter selection v index) :
    Yields s (pure index) (Chooses level.formatter selection v) := by
  refine (yields_pure index).congr fun other => ⟨?_, h.unique⟩
  rintro rfl
  exact h

/-- The search for a variant yields the place that is chosen for the value. -/
theorem yields_variantIndex (selection : Selection) (v : Value) :
    Yields s (level.variantIndex selection v) (Chooses level.formatter selection v) := by
  unfold variantIndex
  cases hexact : selection.exactIndex? v with
  | some index => exact yields_chosen (.exact (Selection.findIdx?_eq_some_iff.1 hexact))
  | none =>
    have hnone := Selection.findIdx?_eq_none_iff.1 hexact
    cases v with
    | string text => exact yields_chosen (.noNumber hnone nofun)
    | none => exact yields_chosen (.noNumber hnone nofun)
    | number n =>
      dsimp only
      cases hplural : level.formatter.plurals n level.formatter.locale with
      | none =>
        -- without a category there is no choice, and the resolution breaks off
        have hnever : ∀ index, ¬Chooses level.formatter selection (.number n) index := by
          intro index h
          cases h with
          | exact key => exact key.not_noKey hnone
          | category _ plural _ => cases hplural.symm.trans plural
          | noCategory _ plural _ => cases hplural.symm.trans plural
          | noNumber _ number => exact number n rfl
        refine (yields_bind (yields_ofOption none) fun category => yields_pure _).congr
          fun index => ⟨?_, fun h => absurd h (hnever index)⟩
        rintro ⟨category, hcategory, -⟩
        cases hcategory
      | some category =>
        show Yields s (pure ((selection.categoryIndex? category).getD selection.defaultIndex)) _
        cases hindex : selection.categoryIndex? category with
        | some index =>
          exact yields_chosen
            (.category hnone hplural (Selection.findIdx?_eq_some_iff.1 hindex))
        | none =>
          exact yields_chosen
            (.noCategory hnone hplural (Selection.findIdx?_eq_none_iff.1 hindex))

theorem yields_select (h : level.IsIdeal s.deeper.depth) (hs : s.depth < level.formatter.limit)
    (place : Place) (selection : Selection) :
    Yields s.deeper (level.select place selection) fun text =>
      ∃ w, Evaluates level.formatter s.deeper (place.step 0) selection.selector w ∧
        ∃ index, Chooses level.formatter selection w index ∧
          ∃ variant, selection.variants[index]? = some variant ∧
            PatternEvaluates level.formatter s.deeper (place.step (index + 1)) variant.value
              text := by
  have hpattern : ∀ index, Yields s.deeper
      (ofOption selection.variants[index]? >>= fun variant =>
        level.pattern (place.step (index + 1)) "select" variant.value) _ := fun index =>
    yields_bind (yields_ofOption _) fun variant => yields_pattern h hs _ _ _
  have hplaceholder : Frames ((pure selection.defaultIndex : Resolving Nat) >>= fun index =>
      ofOption selection.variants[index]? >>= fun variant =>
        level.pattern (place.step (index + 1)) "select" variant.value) :=
    frames_bind (frames_pure _) fun index => (hpattern index).frames
  exact yields_bind_value (h.resolve rfl _ _) (fun _ => hplaceholder) fun w =>
    yields_bind (yields_variantIndex selection w) hpattern

/-! ### Expressions -/

/-- The value of an expression that is no placeable, one level deeper. -/
theorem yields_expression (h : level.IsIdeal s.deeper.depth) (hs : s.depth < level.formatter.limit)
    (place : Place) {e : Expression} (he : ∀ inner, e ≠ .placeable inner) :
    Yields s.deeper (level.expression place e)
      (Resolved.IsValue (Evaluates level.formatter s place e)) := by
  cases e with
  | string literal =>
    refine (yields_pure _).congr fun result => ?_
    simp [Resolved.IsValue, evaluates_string hs]
  | number literal =>
    refine (yields_pure _).congr fun result => ?_
    simp [Resolved.IsValue, evaluates_number hs]
  | var id =>
    refine (yields_variableValue id.name).congr fun result => ?_
    simp only [Resolved.IsValue, evaluates_var hs]
    rfl
  | message id attr => exact yields_message h hs place id attr
  | term id attr arguments => exact yields_term h hs place id attr arguments
  | function id call => exact yields_function h hs place id call
  | select selection =>
    exact yields_ofText (yields_select h hs place selection) fun v => evaluates_select selection
  | placeable inner => exact absurd rfl (he inner)

end Level

/-! ## Whole runs -/

/-- Peeling leaves no placeable around an expression. -/
theorem Expression.peeled_ne_placeable (e inner : Expression) : e.peeled ≠ .placeable inner := by
  fun_induction Expression.peeled e with
  | case1 _ ih => exact ih
  | case2 e he => exact he inner

namespace Session

variable (session : Session)

/-- With room up to the limit, an expression has the value of its acyclic evaluation within the
limit, and no other without a problem. -/
theorem yields_resolve {formatter : Formatter} (h : formatter.functions.IsPlain) {room : Nat}
    {s : Setting} (hroom : s.depth + room = formatter.limit) (place : Place) (e : Expression) :
    Yields s (session.resolve room formatter place e)
      (Resolved.IsValue (Evaluates formatter s place e)) := by
  -- the induction is on the room; the setting of a level is one level deeper
  induction room generalizing s place e with
  | zero =>
    refine yields_failed_of (fun v hv => ?_) _ _
    have := hv.depth_lt
    omega
  | succ room ih =>
    have hlimit : s.depth < formatter.limit := by omega
    have hlevel : (session.level room formatter).IsIdeal s.deeper.depth :=
      ⟨h, fun hs place e => ih (by rw [hs]; show s.depth + 1 + room = _; omega) place e⟩
    have hbody := Level.yields_expression hlevel hlimit place e.peeled_ne_placeable
    refine yields_guarded hlimit (frames_tooDeep _) (hbody.congr fun result => ?_)
    exact exists_congr fun v => and_congr_left' (evaluates_peeled e)

end Session

/-- A text is left without problems if it is the clean result of the body. -/
theorem contained_eq_iff (label : String) (args : Arguments) (body : Resolving Resolved)
    (thread : Thread) (text : List Char) :
    (contained label args body thread).1 = ⟨text, []⟩ ↔
      (body >>= Resolved.text).Cleanly { args := args, thread := thread } text := by
  unfold contained Cleanly
  cases hrun : (body >>= Resolved.text) { args := args, thread := thread } with
  | returned own scope =>
    constructor
    · intro h
      obtain ⟨rfl, herrors⟩ := Formatted.mk.inj h
      exact ⟨scope, rfl, List.reverse_eq_nil_iff.1 herrors⟩
    · rintro ⟨_, ⟨⟩, herrors⟩
      dsimp only at herrors ⊢
      rw [herrors, List.reverse_nil]
  | brokenOff thread =>
    constructor
    · intro h
      cases (Formatted.mk.inj h).2
    · rintro ⟨_, ⟨⟩, -⟩

namespace Formatter

/-- A message is formatted to a text without problems exactly if that text is its ideal value, by an
acyclic evaluation within the limit; and it has at most one ideal value.  So whatever goes wrong
leaves a problem, and neither the limit nor the watch for cycles disturbs what is well.  No pattern
is being evaluated at the start, and where the message is asked for does not matter. -/
theorem format_eq_iff_ideal {formatter : Formatter} (h : formatter.functions.IsPlain) (id : String)
    (attr : Option String) (args : Arguments) :
    let target : Expression := .message ⟨id⟩ (attr.map Identifier.mk)
    (∀ text, formatter.format id attr args = ⟨text, []⟩ ↔
      ∃ run : Evaluation formatter args target (.string (String.ofList text)),
        run.levels ≤ formatter.limit ∧ run.IsAcyclic [] ⟨.standalone, []⟩) ∧
    (∀ v v', Evaluation formatter args target v → Evaluation formatter args target v' →
      v = v') := by
  intro target
  refine ⟨fun text => ?_, fun v v' run run' => run.unique run'⟩
  have hlimit : Session.limit ⟨formatter, []⟩ = formatter.limit := Nat.max_zero _
  have hyields : Yields ⟨args, [], 0⟩
      (Session.resolve ⟨formatter, []⟩ formatter.limit formatter ⟨.standalone, []⟩ target >>=
        Resolved.text) _ :=
    yields_bind_value (Session.yields_resolve _ h (Nat.zero_add _) _ target)
      (fun label => frames_pure _) fun v => yields_ofOption v.text?
  have hformat : formatter.format id attr args =
      (contained (referenceLabel id attr) args (Session.resolve ⟨formatter, []⟩ formatter.limit
        formatter ⟨.standalone, []⟩ target) {}).1 := by
    rw [format, Session.format, hlimit, ← Session.formatAt_message]
    rfl
  rw [hformat, contained_eq_iff, hyields.iff _ rfl]
  -- a message is a text, and texts are written as they are
  have htext : ∀ own : List Char, (Value.string (String.ofList own)).text? = some own := fun own =>
    congrArg some String.toList_ofList
  constructor
  · rintro ⟨v, hv, hwritten⟩
    obtain ⟨p, found, own, hp, rfl⟩ := (evaluates_message _ _).1 hv
    obtain rfl := Option.some.inj ((htext own).symm.trans hwritten)
    obtain ⟨run, hlevels, hacyclic⟩ := hv
    exact ⟨run, Nat.zero_add run.levels ▸ hlevels, hacyclic⟩
  · rintro ⟨run, hlevels, hacyclic⟩
    exact ⟨_, ⟨run, (Nat.zero_add run.levels).symm ▸ hlevels, hacyclic⟩, htext text⟩

/-- A greeting in the name of a brand, which its term writes in one of two ways. -/
def greeter : Formatter where
  catalog :=
    { messages := ⟨[("hello", ⟨⟨"hello"⟩, some [.placeable (.term ⟨"brand"⟩ none
        (some ⟨[], [⟨⟨"case"⟩, .string ⟨"title", "title"⟩⟩]⟩)), .text " greets ",
        .placeable (.var ⟨"name"⟩)], [], none⟩)]⟩
      terms := ⟨[("brand", ⟨⟨"brand"⟩, [.placeable (.select ⟨.var ⟨"case"⟩,
        [⟨.identifier ⟨"title"⟩, [.text "Firefox"], false⟩,
          ⟨.identifier ⟨"plain"⟩, [.text "firefox"], true⟩], 1⟩)], [], none⟩)]⟩ }

/-- The greeting of Ana, read off from what is formatted. -/
theorem format_eq_iff_ideal_greeter :
    greeter.functions.IsPlain ∧
      ∃ run : Evaluation greeter (.ofList [("name", .string "Ana")]) (.message ⟨"hello"⟩ none)
          (.string (String.ofList "Firefox greets \u2068Ana\u2069".toList)),
        run.levels ≤ greeter.limit ∧ run.IsAcyclic [] ⟨.standalone, []⟩ := by
  have htext : (greeter.format "hello" none (.ofList [("name", .string "Ana")])).text =
      "Firefox greets \u2068Ana\u2069".toList := by
    decide +kernel
  have herrors : (greeter.format "hello" none (.ofList [("name", .string "Ana")])).errors = [] := by
    decide +kernel
  have hplain : greeter.functions.IsPlain := FunctionTable.isPlain_builtins
  refine ⟨hplain, ((format_eq_iff_ideal hplain "hello" none _).1 _).1 ?_⟩
  rw [← htext, ← herrors]

end Formatter

end Fluent
