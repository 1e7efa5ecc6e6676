/-
# Evaluations within the limit

A bounded resolution finds the values of evaluations that are acyclic and need no more levels than
are left below the limit.  What such an evaluation of an expression is made of is said here once,
for each kind of expression.

* `Evaluates` : an expression has a value by such an evaluation;
* `evaluates_message`, `evaluates_term`, `evaluates_function`, `evaluates_select` : what it is made
  of.
-/
import Fluent.Format.Ideal
import Fluent.Proofs.Format.Yield

namespace Fluent

/-- In the setting the expression at a place has the value, by an acyclic evaluation that needs no
more levels than are left. -/
def Evaluates (formatter : Formatter) (s : Setting) (place : Place) (e : Expression) (v : Value) :
    Prop :=
  ∃ run : Evaluation formatter s.vars e v,
    s.depth + run.levels ≤ formatter.limit ∧ run.IsAcyclic s.trail place

/-- The same of the elements of a pattern, from the one with the given index on. -/
def TextEvaluates (formatter : Formatter) (s : Setting) (isolating : Bool) (place : Place)
    (index : Nat) (p : List PatternElement) (text : List Char) : Prop :=
  ∃ run : TextEvaluation formatter s.vars isolating p text,
    s.depth + run.levels ≤ formatter.limit ∧ run.IsAcyclic s.trail place index

/-- The same of arguments, from the one with the given index on. -/
def ArgumentsEvaluate (formatter : Formatter) (s : Setting) (place : Place) (index : Nat)
    (list : List Expression) (values : List Value) : Prop :=
  ∃ run : ArgumentEvaluation formatter s.vars list values,
    s.depth + run.levels ≤ formatter.limit ∧ run.IsAcyclic s.trail place index

/-- The same of the pattern at a place, which is not one that is being evaluated. -/
def PatternEvaluates (formatter : Formatter) (s : Setting) (place : Place) (p : Pattern)
    (text : List Char) : Prop :=
  place ∉ s.trail ∧ TextEvaluates formatter (s.inside place) (formatter.isolates p) place 0 p text

section Evaluates

variable {formatter : Formatter} {s : Setting} {place : Place} {v : Value}

/-- Two parts fit below the limit if the one that needs more does. -/
theorem fits_max {depth m n limit : Nat} :
    depth + max m n ≤ limit ↔ depth + m ≤ limit ∧ depth + n ≤ limit := by
  omega

/-- Nothing is evaluated at the limit. -/
theorem Evaluates.depth_lt {e : Expression} (h : Evaluates formatter s place e v) :
    s.depth < formatter.limit := by
  obtain ⟨run, hlevels, -⟩ := h
  have := run.levels_pos
  omega

/-- Below the limit a string literal has its value and no other. -/
theorem evaluates_string (h : s.depth < formatter.limit) (literal : StringLiteral) :
    Evaluates formatter s place (.string literal) v ↔ .string literal.value = v := by
  constructor
  · rintro ⟨run, -, -⟩
    cases run
    rfl
  · rintro rfl
    exact ⟨.string literal, h, trivial⟩

/-- Below the limit a number literal has its value and no other. -/
theorem evaluates_number (h : s.depth < formatter.limit) (literal : NumberLiteral) :
    Evaluates formatter s place (.number literal) v ↔ .number (.ofLiteral literal) = v := by
  constructor
  · rintro ⟨run, -, -⟩
    cases run
    rfl
  · rintro rfl
    exact ⟨.number literal, h, trivial⟩

/-- Below the limit a variable has the value that it was given. -/
theorem evaluates_var (h : s.depth < formatter.limit) (id : Identifier) :
    Evaluates formatter s place (.var id) v ↔ s.vars.find? id.name = some v := by
  constructor
  · rintro ⟨run, -, -⟩
    cases run with
    | var found => exact found
  · intro found
    exact ⟨.var found, h, trivial⟩

/-- A message reference has the text of the pattern it refers to, one level deeper. -/
theorem evaluates_message (id : Identifier) (attr : Option Identifier) :
    Evaluates formatter s place (.message id attr) v ↔
      ∃ p, formatter.catalog.messagePattern? id.name (attr.map (·.name)) = some p ∧
        ∃ text, PatternEvaluates formatter s.deeper ⟨.message id.name (attr.map (·.name)), []⟩ p
          text ∧ .string (String.ofList text) = v := by
  constructor
  · rintro ⟨run, hlevels, hacyclic⟩
    cases run with
    | message found run =>
      have hrun := (Setting.deeper_fits run.levels).2 hlevels
      exact ⟨_, found, _, ⟨hacyclic.1, run, hrun, hacyclic.2⟩, rfl⟩
  · rintro ⟨p, found, text, ⟨hfresh, run, hlevels, hacyclic⟩, rfl⟩
    exact ⟨.message found run, (Setting.deeper_fits run.levels).1 hlevels, hfresh, hacyclic⟩

/-- A term reference has the text of its pattern, one level deeper and with only its own arguments
visible. -/
theorem evaluates_term (id : Identifier) (attr : Option Identifier)
    (arguments : Option CallArguments) :
    Evaluates formatter s place (.term id attr arguments) v ↔
      ∃ p, formatter.catalog.termPattern? id.name (attr.map (·.name)) = some p ∧
        ∃ text, PatternEvaluates formatter (s.deeper.withVars (termArguments arguments))
          ⟨.term id.name (attr.map (·.name)), []⟩ p text ∧ .string (String.ofList text) = v := by
  constructor
  · rintro ⟨run, hlevels, hacyclic⟩
    cases run with
    | term found run =>
      have hrun := (Setting.deeper_fits run.levels).2 hlevels
      exact ⟨_, found, _, ⟨hacyclic.1, run, hrun, hacyclic.2⟩, rfl⟩
  · rintro ⟨p, found, text, ⟨hfresh, run, hlevels, hacyclic⟩, rfl⟩
    exact ⟨.term found run, (Setting.deeper_fits run.levels).1 hlevels, hfresh, hacyclic⟩

/-- A function call has what the function answers to the values of its arguments. -/
theorem evaluates_function (id : Identifier) (call : CallArguments) :
    Evaluates formatter s place (.function id call) v ↔
      ∃ f, formatter.functions.find? id.name = some f ∧
        ∃ values, ArgumentsEvaluate formatter s.deeper place 0 call.positional values ∧
          f values (namedArguments call.named) = .value v := by
  constructor
  · rintro ⟨run, hlevels, hacyclic⟩
    cases run with
    | function found run result =>
      have hrun := (Setting.deeper_fits run.levels).2 hlevels
      exact ⟨_, found, _, ⟨run, hrun, hacyclic⟩, result⟩
  · rintro ⟨f, found, values, ⟨run, hlevels, hacyclic⟩, result⟩
    exact ⟨.function found run result, (Setting.deeper_fits run.levels).1 hlevels, hacyclic⟩

/-- A selection has the text of the variant that is chosen for the value of its selector. -/
theorem evaluates_select (selection : Selection) :
    Evaluates formatter s place (.select selection) v ↔
      ∃ text, (∃ w, Evaluates formatter s.deeper (place.step 0) selection.selector w ∧
        ∃ index, Chooses formatter selection w index ∧
          ∃ variant, selection.variants[index]? = some variant ∧
            PatternEvaluates formatter s.deeper (place.step (index + 1)) variant.value text) ∧
        .string (String.ofList text) = v := by
  constructor
  · rintro ⟨run, hlevels, hacyclic⟩
    cases run with
    | select selector chosen found run =>
      obtain ⟨hselector, hfresh, hrun⟩ := hacyclic
      have hmax := (Setting.deeper_fits (max selector.levels run.levels)).2 hlevels
      obtain ⟨hleft, hright⟩ := fits_max.1 hmax
      exact ⟨_, ⟨_, ⟨selector, hleft, hselector⟩, _, chosen, _, found, hfresh, run, hright, hrun⟩,
        rfl⟩
  · rintro ⟨text, ⟨w, ⟨selector, hleft, hselector⟩, index, chosen, variant, found, hfresh, run,
      hright, hrun⟩, rfl⟩
    have hlevels := (Setting.deeper_fits _).1 (fits_max.2 ⟨hleft, hright⟩)
    exact ⟨.select selector chosen found run, hlevels, hselector, hfresh, hrun⟩

/-- A placeable within braces has the value of what it holds. -/
theorem evaluates_placeable (inner : Expression) :
    Evaluates formatter s place (.placeable inner) v ↔ Evaluates formatter s place inner v := by
  constructor
  · rintro ⟨run, hlevels, hacyclic⟩
    cases run with
    | placeable run => exact ⟨run, hlevels, hacyclic⟩
  · rintro ⟨run, hlevels, hacyclic⟩
    exact ⟨.placeable run, hlevels, hacyclic⟩

/-- The placeables wrapped around an expression do not matter. -/
theorem evaluates_peeled (e : Expression) :
    Evaluates formatter s place e.peeled v ↔ Evaluates formatter s place e v := by
  fun_induction Expression.peeled e with
  | case1 inner ih => exact ih.trans (evaluates_placeable inner).symm
  | case2 => exact Iff.rfl

/-- An empty list of elements has the empty text. -/
theorem textEvaluates_nil {isolating : Bool} {index : Nat} {text : List Char}
    (h : s.depth ≤ formatter.limit) :
    TextEvaluates formatter s isolating place index [] text ↔ [] = text := by
  constructor
  · rintro ⟨run, -, -⟩
    cases run
    rfl
  · rintro rfl
    exact ⟨.nil, h, trivial⟩

/-- A text element is followed by the text of the rest. -/
theorem textEvaluates_text {isolating : Bool} {index : Nat} {value : String}
    {rest : List PatternElement} {text : List Char} :
    TextEvaluates formatter s isolating place index (.text value :: rest) text ↔
      ∃ texts, TextEvaluates formatter s isolating place (index + 1) rest texts ∧
        value.toList ++ texts = text := by
  constructor
  · rintro ⟨run, hlevels, hacyclic⟩
    cases run with
    | text others => exact ⟨_, ⟨others, hlevels, hacyclic⟩, rfl⟩
  · rintro ⟨texts, ⟨others, hlevels, hacyclic⟩, rfl⟩
    exact ⟨.text others, hlevels, hacyclic⟩

/-- The text of a placeable, isolated or not, is followed by the text of the rest. -/
theorem textEvaluates_placeable {isolating : Bool} {index : Nat} {e : Expression}
    {rest : List PatternElement} {text : List Char} :
    TextEvaluates formatter s isolating place index (.placeable e :: rest) text ↔
      ∃ v, Evaluates formatter s (place.step index) e v ∧ ∃ own, v.text? = some own ∧
        ∃ texts, TextEvaluates formatter s isolating place (index + 1) rest texts ∧
          isolated (isolating && e.needsIsolation) own ++ texts = text := by
  constructor
  · rintro ⟨run, hlevels, hacyclic⟩
    cases run with
    | placeable run written others =>
      obtain ⟨hrun, hothers⟩ := fits_max.1 hlevels
      exact ⟨_, ⟨run, hrun, hacyclic.1⟩, _, written, _, ⟨others, hothers, hacyclic.2⟩, rfl⟩
  · rintro ⟨v, ⟨run, hrun, hrunAcyclic⟩, own, written, texts, ⟨others, hothers, hacyclic⟩, rfl⟩
    exact ⟨.placeable run written others, fits_max.2 ⟨hrun, hothers⟩, hrunAcyclic, hacyclic⟩

/-- An empty list of arguments has the empty list of values. -/
theorem argumentsEvaluate_nil {index : Nat} {values : List Value} (h : s.depth ≤ formatter.limit) :
    ArgumentsEvaluate formatter s place index [] values ↔ [] = values := by
  constructor
  · rintro ⟨run, -, -⟩
    cases run
    rfl
  · rintro rfl
    exact ⟨.nil, h, trivial⟩

/-- The value of the first argument is followed by those of the rest. -/
theorem argumentsEvaluate_cons {index : Nat} {e : Expression} {rest : List Expression}
    {values : List Value} :
    ArgumentsEvaluate formatter s place index (e :: rest) values ↔
      ∃ v, Evaluates formatter s (place.step index) e v ∧
        ∃ others, ArgumentsEvaluate formatter s place (index + 1) rest others ∧
          v :: others = values := by
  constructor
  · rintro ⟨run, hlevels, hacyclic⟩
    cases run with
    | cons run others =>
      obtain ⟨hrun, hothers⟩ := fits_max.1 hlevels
      exact ⟨_, ⟨run, hrun, hacyclic.1⟩, _, ⟨others, hothers, hacyclic.2⟩, rfl⟩
  · rintro ⟨v, ⟨run, hrun, hrunAcyclic⟩, values, ⟨others, hothers, hacyclic⟩, rfl⟩
    exact ⟨.cons run others, fits_max.2 ⟨hrun, hothers⟩, hrunAcyclic, hacyclic⟩

end Evaluates

/-! ## Choices -/

namespace Selection

variable {selection : Selection} {p : VariantKey → Bool}

/-- The search finds the place of the first key that matches. -/
theorem findIdx?_eq_some_iff {index : Nat} :
    (selection.variants.findIdx? fun variant => p variant.key) = some index ↔
      selection.FirstKey p index := by
  rw [List.findIdx?_eq_some_iff_getElem]
  simp [FirstKey]

/-- The search finds nothing exactly when no key matches. -/
theorem findIdx?_eq_none_iff :
    (selection.variants.findIdx? fun variant => p variant.key) = none ↔ selection.NoKey p :=
  List.findIdx?_eq_none_iff

end Selection

end Fluent
