/-
# Ideal evaluation

What a message stands for, if nothing is missing and nothing is bounded: texts are copied, variables
looked up, references replaced by what they refer to, functions applied, and selections resolved.
There is no limit on the depth, no watch for cycles and no placeholder; where something is missing,
there is no evaluation.

Evaluations are trees.  How many levels an evaluation needs, and whether it comes back to a pattern
that it is in the middle of, can be read off its tree.

* `Evaluation` : the evaluations of an expression to a value;
* `Evaluation.levels`, `Evaluation.IsAcyclic` : what a bounded resolution needs to know of them;
* `Evaluation.unique` : an expression has at most one value.
-/
import Fluent.Format.Resolve

namespace Fluent

/-! ## Targets of references -/

namespace Catalog

/-- The pattern of a message or of one of its attributes. -/
def messagePattern? (catalog : Catalog) (id : String) (attr : Option String) : Option Pattern :=
  match catalog.message? id, attr with
  | none, _ => none
  | some found, none => found.value
  | some found, some name => (findAttribute? name found.attributes).map (·.value)

/-- The pattern of a term or of one of its attributes. -/
def termPattern? (catalog : Catalog) (id : String) (attr : Option String) : Option Pattern :=
  match catalog.term? id, attr with
  | none, _ => none
  | some found, none => some found.value
  | some found, some name => (findAttribute? name found.attributes).map (·.value)

end Catalog

/-- The values of variables inside a term: those named in the call, none without a call. -/
def termArguments : Option CallArguments → Arguments
  | none => .empty
  | some call => namedArguments call.named

/-- Whether the placeables of a pattern are isolated; one that stands alone is not. -/
def Formatter.isolates (formatter : Formatter) (pattern : Pattern) : Bool :=
  formatter.settings.useIsolating && decide (1 < pattern.length)

/-! ## The choice of a variant -/

namespace Selection

/-- No key of the selection is of the kind. -/
def NoKey (selection : Selection) (p : VariantKey → Bool) : Prop :=
  ∀ variant ∈ selection.variants, p variant.key = false

/-- The variant at the place is the first one with a key of the kind. -/
def FirstKey (selection : Selection) (p : VariantKey → Bool) (index : Nat) : Prop :=
  ∃ h : index < selection.variants.length, p selection.variants[index].key = true ∧
    ∀ earlier, ∀ _ : earlier < index, p selection.variants[earlier].key = false

end Selection

/-- The place of the variant for a value: that of the first exact key; for a number without one,
that of the first key that names its plural category; otherwise that of the default variant. -/
inductive Chooses (formatter : Formatter) (selection : Selection) : Value → Nat → Prop
  | exact {v index} (key : selection.FirstKey (·.isOf v) index) :
      Chooses formatter selection v index
  | category {n category index} (exact : selection.NoKey (·.isOf (.number n)))
      (plural : formatter.plurals n formatter.locale = some category)
      (key : selection.FirstKey (·.names category) index) :
      Chooses formatter selection (.number n) index
  | noCategory {n category} (exact : selection.NoKey (·.isOf (.number n)))
      (plural : formatter.plurals n formatter.locale = some category)
      (key : selection.NoKey (·.names category)) :
      Chooses formatter selection (.number n) selection.defaultIndex
  | noNumber {v} (exact : selection.NoKey (·.isOf v)) (number : ∀ n, v ≠ .number n) :
      Chooses formatter selection v selection.defaultIndex

/-! ## Evaluations -/

mutual

/-- An evaluation of an expression, with the given values of variables, to a value. -/
inductive Evaluation (formatter : Formatter) : Arguments → Expression → Value → Type
  | string {vars} (literal : StringLiteral) :
      Evaluation formatter vars (.string literal) (.string literal.value)
  | number {vars} (literal : NumberLiteral) :
      Evaluation formatter vars (.number literal) (.number (.ofLiteral literal))
  | var {vars id v} (found : vars.find? id.name = some v) : Evaluation formatter vars (.var id) v
  | message {vars id attr p text}
      (found : formatter.catalog.messagePattern? id.name (attr.map (·.name)) = some p)
      (run : TextEvaluation formatter vars (formatter.isolates p) p text) :
      Evaluation formatter vars (.message id attr) (.string (String.ofList text))
  | term {vars id attr arguments p text}
      (found : formatter.catalog.termPattern? id.name (attr.map (·.name)) = some p)
      (run : TextEvaluation formatter (termArguments arguments) (formatter.isolates p) p text) :
      Evaluation formatter vars (.term id attr arguments) (.string (String.ofList text))
  | function {vars id call f values v} (found : formatter.functions.find? id.name = some f)
      (run : ArgumentEvaluation formatter vars call.positional values)
      (result : f values (namedArguments call.named) = .value v) :
      Evaluation formatter vars (.function id call) v
  | select {vars selection v index variant text}
      (selector : Evaluation formatter vars selection.selector v)
      (chosen : Chooses formatter selection v index)
      (found : selection.variants[index]? = some variant)
      (run : TextEvaluation formatter vars (formatter.isolates variant.value) variant.value text) :
      Evaluation formatter vars (.select selection) (.string (String.ofList text))
  | placeable {vars inner v} (run : Evaluation formatter vars inner v) :
      Evaluation formatter vars (.placeable inner) v

/-- An evaluation of the elements of a pattern to a text; placed values are isolated if asked
for. -/
inductive TextEvaluation (formatter : Formatter) :
    Arguments → Bool → List PatternElement → List Char → Type
  | nil {vars isolating} : TextEvaluation formatter vars isolating [] []
  | text {vars isolating value rest texts}
      (others : TextEvaluation formatter vars isolating rest texts) :
      TextEvaluation formatter vars isolating (.text value :: rest) (value.toList ++ texts)
  | placeable {vars isolating e v own rest texts} (run : Evaluation formatter vars e v)
      (written : v.text? = some own)
      (others : TextEvaluation formatter vars isolating rest texts) :
      TextEvaluation formatter vars isolating (.placeable e :: rest)
        (isolated (isolating && e.needsIsolation) own ++ texts)

/-- An evaluation of arguments to values. -/
inductive ArgumentEvaluation (formatter : Formatter) :
    Arguments → List Expression → List Value → Type
  | nil {vars} : ArgumentEvaluation formatter vars [] []
  | cons {vars e v rest values} (run : Evaluation formatter vars e v)
      (others : ArgumentEvaluation formatter vars rest values) :
      ArgumentEvaluation formatter vars (e :: rest) (v :: values)

end

variable {formatter : Formatter}

/-! ## Levels -/

mutual

/-- How many levels an evaluation needs: one for each expression inside another; the placeables
wrapped around an expression take none. -/
def Evaluation.levels {vars : Arguments} {e : Expression} {v : Value} :
    Evaluation formatter vars e v → Nat
  | .string _ | .number _ | .var _ => 1
  | .message _ run => run.levels + 1
  | .term _ run => run.levels + 1
  | .function _ run _ => run.levels + 1
  | .select selector _ _ run => max selector.levels run.levels + 1
  | .placeable run => run.levels

/-- The most levels that an element needs. -/
def TextEvaluation.levels {vars : Arguments} {isolating : Bool} {p : List PatternElement}
    {text : List Char} : TextEvaluation formatter vars isolating p text → Nat
  | .nil => 0
  | .text others => others.levels
  | .placeable run _ others => max run.levels others.levels

/-- The most levels that an argument needs. -/
def ArgumentEvaluation.levels {vars : Arguments} {list : List Expression} {values : List Value} :
    ArgumentEvaluation formatter vars list values → Nat
  | .nil => 0
  | .cons run others => max run.levels others.levels

end

/-- Every evaluation needs a level. -/
theorem Evaluation.levels_pos {vars : Arguments} {e : Expression} {v : Value}
    (run : Evaluation formatter vars e v) : 0 < run.levels := by
  match run with
  | .string _ | .number _ | .var _ => exact Nat.one_pos
  | .message .. | .term .. | .function .. | .select .. => exact Nat.succ_pos _
  | .placeable inner => exact inner.levels_pos
termination_by structural run

/-! ## Cycles -/

mutual

/-- No pattern is evaluated while it is on the trail: the patterns that are being evaluated, the
innermost first.  The expression itself stands at the given place. -/
def Evaluation.IsAcyclic {vars : Arguments} {e : Expression} {v : Value} (trail : List Place)
    (place : Place) : Evaluation formatter vars e v → Prop
  | .string _ | .number _ | .var _ => True
  | @Evaluation.message _ _ id attr _ _ _ run =>
    let target : Place := ⟨.message id.name (attr.map (·.name)), []⟩
    target ∉ trail ∧ run.IsAcyclic (target :: trail) target 0
  | @Evaluation.term _ _ id attr _ _ _ _ run =>
    let target : Place := ⟨.term id.name (attr.map (·.name)), []⟩
    target ∉ trail ∧ run.IsAcyclic (target :: trail) target 0
  | .function _ run _ => run.IsAcyclic trail place 0
  | @Evaluation.select _ _ _ _ index _ _ selector _ _ run =>
    let target := place.step (index + 1)
    selector.IsAcyclic trail (place.step 0) ∧
      target ∉ trail ∧ run.IsAcyclic (target :: trail) target 0
  | .placeable run => run.IsAcyclic trail place

/-- The same of the elements of the pattern at a place, from the one with the given index on. -/
def TextEvaluation.IsAcyclic {vars : Arguments} {isolating : Bool} {p : List PatternElement}
    {text : List Char} (trail : List Place) (place : Place) (index : Nat) :
    TextEvaluation formatter vars isolating p text → Prop
  | .nil => True
  | .text others => others.IsAcyclic trail place (index + 1)
  | .placeable run _ others =>
    run.IsAcyclic trail (place.step index) ∧ others.IsAcyclic trail place (index + 1)

/-- The same of the arguments of the call at a place, from the one with the given index on. -/
def ArgumentEvaluation.IsAcyclic {vars : Arguments} {list : List Expression} {values : List Value}
    (trail : List Place) (place : Place) (index : Nat) :
    ArgumentEvaluation formatter vars list values → Prop
  | .nil => True
  | .cons run others =>
    run.IsAcyclic trail (place.step index) ∧ others.IsAcyclic trail place (index + 1)

end

/-! ## Uniqueness -/

namespace Selection

variable {selection : Selection} {p : VariantKey → Bool}

/-- Where some key is the first to match, it is not so that none does. -/
theorem FirstKey.not_noKey {index : Nat} (h : selection.FirstKey p index) : ¬selection.NoKey p := by
  obtain ⟨hlt, hkey, -⟩ := h
  intro hno
  rw [hno _ (List.getElem_mem hlt)] at hkey
  cases hkey

/-- At most one key is the first to match. -/
theorem FirstKey.unique {index index' : Nat} (h : selection.FirstKey p index)
    (h' : selection.FirstKey p index') : index = index' := by
  obtain ⟨_, hkey, hfirst⟩ := h
  obtain ⟨_, hkey', hfirst'⟩ := h'
  -- the greater one of two different places would not be the first
  rcases Nat.lt_trichotomy index index' with hlt | heq | hgt
  · rw [hfirst' index hlt] at hkey
    cases hkey
  · exact heq
  · rw [hfirst index' hgt] at hkey'
    cases hkey'

end Selection

/-- At most one variant is chosen. -/
theorem Chooses.unique {selection : Selection} {v : Value} {index index' : Nat}
    (h : Chooses formatter selection v index) (h' : Chooses formatter selection v index') :
    index = index' := by
  cases h with
  | exact key =>
    cases h' with
    | exact key' => exact key.unique key'
    | category exact' | noCategory exact' | noNumber exact' => exact absurd exact' key.not_noKey
  | category exact plural key =>
    cases h' with
    | exact key' => exact absurd exact key'.not_noKey
    | category _ plural' key' =>
      obtain rfl := Option.some.inj (plural.symm.trans plural')
      exact key.unique key'
    | noCategory _ plural' key' =>
      obtain rfl := Option.some.inj (plural.symm.trans plural')
      exact absurd key' key.not_noKey
    | noNumber _ number => exact absurd rfl (number _)
  | noCategory exact plural key =>
    cases h' with
    | exact key' => exact absurd exact key'.not_noKey
    | category _ plural' key' =>
      obtain rfl := Option.some.inj (plural.symm.trans plural')
      exact absurd key key'.not_noKey
    | noCategory | noNumber => rfl
  -- without a number there is no category, only the default
  | noNumber exact number =>
    cases h' with
    | exact key' => exact absurd exact key'.not_noKey
    | category => exact absurd rfl (number _)
    | noCategory | noNumber => rfl

mutual

/-- An expression has at most one value. -/
theorem Evaluation.unique {vars : Arguments} {e : Expression} {v v' : Value}
    (run : Evaluation formatter vars e v) (run' : Evaluation formatter vars e v') : v = v' := by
  match run, run' with
  | .string _, .string _ => rfl
  | .number _, .number _ => rfl
  | .var found, .var found' => exact Option.some.inj (found.symm.trans found')
  | .message found inner, .message found' inner' =>
    obtain rfl := Option.some.inj (found.symm.trans found')
    rw [inner.unique inner']
  | .term found inner, .term found' inner' =>
    obtain rfl := Option.some.inj (found.symm.trans found')
    rw [inner.unique inner']
  | .function found inner result, .function found' inner' result' =>
    obtain rfl := Option.some.inj (found.symm.trans found')
    rw [← inner.unique inner', result] at result'
    exact Call.value.inj result'
  | .select selector chosen found inner, .select selector' chosen' found' inner' =>
    obtain rfl := selector.unique selector'
    obtain rfl := chosen.unique chosen'
    obtain rfl := Option.some.inj (found.symm.trans found')
    rw [inner.unique inner']
  | .placeable inner, .placeable inner' => exact inner.unique inner'
termination_by structural run

/-- A pattern has at most one text. -/
theorem TextEvaluation.unique {vars : Arguments} {isolating : Bool} {p : List PatternElement}
    {text text' : List Char} (run : TextEvaluation formatter vars isolating p text)
    (run' : TextEvaluation formatter vars isolating p text') : text = text' := by
  match run, run' with
  | .nil, .nil => rfl
  | .text others, .text others' => rw [others.unique others']
  | .placeable inner written others, .placeable inner' written' others' =>
    obtain rfl := inner.unique inner'
    obtain rfl := Option.some.inj (written.symm.trans written')
    rw [others.unique others']
termination_by structural run

/-- Arguments have at most one list of values. -/
theorem ArgumentEvaluation.unique {vars : Arguments} {list : List Expression}
    {values values' : List Value} (run : ArgumentEvaluation formatter vars list values)
    (run' : ArgumentEvaluation formatter vars list values') : values = values' := by
  match run, run' with
  | .nil, .nil => rfl
  | .cons inner others, .cons inner' others' => rw [inner.unique inner', others.unique others']
termination_by structural run

end

end Fluent
