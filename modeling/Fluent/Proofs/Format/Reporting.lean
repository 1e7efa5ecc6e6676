/-
# Placeholders come with problems

Where something is missing or goes wrong, a placeholder takes the place of a value, and a problem is
recorded.  So a placeholder is never left without a new problem, whether it is left at the place
where things went wrong or passed on from an argument of a call.

* `Resolving.Reports` : results of a kind are returned only together with a new problem;
* `Session.reports_resolve` : so are placeholders.
-/
import Fluent.Proofs.Format.Moments

namespace Fluent

namespace Resolving

variable {α β : Type}

/-! ## Problems that are told -/

/-- Results of the kind are never returned without a new problem. -/
def Reports (bad : α → Prop) (m : Resolving α) : Prop :=
  ∀ scope a after, m scope = .returned a after → bad a → scope.errors.length < after.errors.length

/-- A result that is not bad is returned as it is. -/
theorem reports_pure {bad : α → Prop} {a : α} (h : ¬bad a) : Reports bad (pure a) := by
  rintro scope _ _ ⟨⟩ hbad
  exact absurd hbad h

/-- Of two resolutions in a row the first one tells the problem, or else the second one. -/
theorem reports_bind {bad : β → Prop} {worse : α → Prop} {first : Resolving α}
    {next : α → Resolving β} (hfirst : Frames first) (hnext : ∀ a, Frames (next a))
    (h : Reports worse first) (h' : ∀ a, ¬worse a → Reports bad (next a)) :
    Reports bad (first >>= next) := by
  intro scope b after hb hbad
  obtain ⟨a, mid, hmid, hafter⟩ := bind_eq_returned.1 hb
  have hkept := (hfirst scope a mid hmid).errors.length_le
  have hkept' := (hnext a mid b after hafter).errors.length_le
  by_cases hworse : worse a
  · have := h scope a mid hmid hworse
    omega
  · have := h' a hworse mid b after hafter hbad
    omega

/-- A placeholder comes with its problem. -/
theorem reports_failed {bad : Resolved → Prop} (error : ResolverError) (label : String) :
    Reports bad (failed error label) := by
  rintro scope _ _ ⟨⟩ _
  exact Nat.lt_succ_self _

/-- What is never bad tells no problem. -/
theorem reports_map {bad : β → Prop} {f : α → β} (h : ∀ a, ¬bad (f a)) (m : Resolving α) :
    Reports bad (f <$> m) := by
  intro scope b after hb hbad
  obtain ⟨a, mid, -, ⟨⟩⟩ := bind_eq_returned.1 hb
  exact absurd hbad (h a)

/-- A guarded body reports on both branches of the guard. -/
theorem Reports.guarded {bad : α → Prop} {limit : Nat} {atLimit body : Resolving α}
    (hl : Reports bad atLimit) (h : Reports bad body) :
    Reports bad (guarded limit atLimit body) := by
  intro scope a after ha hbad
  cases he : scope.thread.depth.enter? limit with
  | none =>
    rw [guarded_of_full he] at ha
    exact hl scope a after ha hbad
  | some entered =>
    obtain ⟨inner, hbody, herrors⟩ := guarded_eq_returned he ha
    rw [← herrors]
    exact (h (scope.withDepth entered) a inner hbody hbad :)

end Resolving

open Resolving

/-! ## One level -/

/-- The result is a placeholder. -/
def Resolved.IsPlaceholder : Resolved → Prop
  | .value _ => False
  | .placeholder _ => True

namespace Level

variable {level : Level}

/-- A missing variable is reported. -/
theorem reports_variableValue (name : String) :
    Reports Resolved.IsPlaceholder (variableValue name) := by
  have hnothing : Reports (fun _ => False) (valueOf? name) := fun _ _ _ _ => False.elim
  refine reports_bind (congruence_frames.valueOf? name) (fun found => ?_) hnothing fun found _ => ?_
  · cases found with
    | none => exact congruence_frames.failed _ _
    | some value => exact frames_pure _
  · cases found with
    | none => exact reports_failed _ _
    | some value => exact reports_pure not_false

/-- A missing message, value or attribute is reported. -/
theorem reports_message (id : String) (attr : Option String) :
    Reports Resolved.IsPlaceholder (level.message id attr) := by
  rcases level.message_cases id attr with ⟨p, -, heq⟩ | ⟨-, error, label, -, heq⟩
  · rw [heq]
    exact reports_map (fun _ => not_false) _
  · rw [heq]
    exact reports_failed _ _

/-- A missing term or attribute is reported. -/
theorem reports_term (id : String) (attr : Option String) (arguments : Option CallArguments) :
    Reports Resolved.IsPlaceholder (level.term id attr arguments) := by
  rcases level.term_cases id attr arguments with ⟨p, -, heq⟩ | ⟨-, error, label, -, heq⟩
  · rw [heq]
    exact reports_map (fun _ => not_false) _
  · rw [heq]
    exact reports_failed _ _

/-- What a call leaves: its value, or a placeholder and its problem. -/
def afterCall (name : String) : CallResult → Resolving Resolved
  | .value v => return .value v
  | .failure error => failed (.functionFailed name error) (name ++ "()")
  | .brokenOff => failed (.functionBrokeOff name) (name ++ "()")

theorem frames_afterCall (name : String) (result : CallResult) :
    Frames (afterCall name result) := by
  cases result with
  | value v => exact frames_pure _
  | failure | brokenOff => exact congruence_frames.failed _ _

/-- A refusal of a function is reported, and so is its breaking off. -/
theorem reports_afterCall (name : String) (result : CallResult) :
    Reports Resolved.IsPlaceholder (afterCall name result) := by
  cases result with
  | value v => exact reports_pure not_false
  | failure | brokenOff => exact reports_failed _ _

/-- The call of a function that is not in the table fails without resolving its arguments. -/
theorem function_of_unknown (level : Level) {name : String}
    (h : level.formatter.functions.find? name = none) (place : Place) (call : CallArguments) :
    level.function place name call = failed (.unknownFunction name) (name ++ "()") := by
  rw [function, h]

/-- A function that there is gets the values of its arguments, unless one of them is a
placeholder. -/
theorem function_of_found (level : Level) {name : String} {f : Function}
    (h : level.formatter.functions.find? name = some f) (place : Place) (call : CallArguments) :
    level.function place name call = level.arguments place 0 call.positional >>= fun
      | none => pure (.placeholder (name ++ "()"))
      | some values => level.run (f values (namedArguments call.named)) >>= afterCall name := by
  rw [function, h]
  congr

section Next

variable (h : level.Related (fun m _ => Frames m) level)
  (hreports : ∀ place e, Reports Resolved.IsPlaceholder (level.resolve place e))
include h hreports

/-- Arguments come to nothing only where one of them is a placeholder. -/
theorem reports_arguments (place : Place) (list : List Expression) (index : Nat) :
    Reports (· = none) (level.arguments place index list) := by
  induction list generalizing index with
  | nil => exact reports_pure (by simp)
  | cons e rest ih =>
    refine reports_bind (h.resolve _ _) (fun result => ?_) (hreports _ _) fun result hvalue => ?_
    · cases result with
      | placeholder label => exact frames_pure _
      | value v => exact frames_bind (h.arguments congruence_frames _ _ _) fun _ => frames_pure _
    · cases result with
      | placeholder label => exact absurd trivial hvalue
      | value v =>
        refine reports_bind (h.arguments congruence_frames _ _ _) (fun _ => frames_pure _)
          (ih (index + 1)) fun values hvalues => reports_pure fun hnone => ?_
        exact hvalues (Option.map_eq_none_iff.1 hnone)

/-- A failed function call is reported. -/
theorem reports_function (place : Place) (name : String) (call : CallArguments) :
    Reports Resolved.IsPlaceholder (level.function place name call) := by
  cases hf : level.formatter.functions.find? name with
  | none =>
    rw [level.function_of_unknown hf]
    exact reports_failed _ _
  | some f =>
    rw [level.function_of_found hf]
    have hrun := fun values => h.run _ ⟨name, f, values, namedArguments call.named, hf, rfl⟩
    refine reports_bind (h.arguments congruence_frames _ _ _) (fun positional => ?_)
      (reports_arguments h hreports place call.positional 0) fun positional hsome => ?_
    · cases positional with
      | none => exact frames_pure _
      | some values => exact frames_bind (hrun values) (frames_afterCall name)
    · cases positional with
      | none => exact absurd rfl hsome
      | some values =>
        have hnothing : Reports (fun _ => False)
            (level.run (f values (namedArguments call.named))) := fun _ _ _ _ => False.elim
        exact reports_bind (hrun values) (frames_afterCall name) hnothing
          fun result _ => reports_afterCall name result

/-- An expression of any form leaves no placeholder unreported. -/
theorem reports_expression (place : Place) (e : Expression) :
    Reports Resolved.IsPlaceholder (level.expression place e) := by
  cases e with
  | string literal => exact reports_pure not_false
  | number literal => exact reports_pure not_false
  | var id => exact reports_variableValue _
  | message id attr => exact reports_message _ _
  | term id attr arguments => exact reports_term _ _ _
  | function id call => exact reports_function h hreports _ _ _
  | select selection => exact reports_map (fun _ => not_false) _
  | placeable inner => exact hreports _ _

end Next

end Level

/-! ## All levels together -/

/-- A placeholder is never left without a problem. -/
theorem Session.reports_resolve (session : Session) (room : Nat) (formatter : Formatter)
    (place : Place) (e : Expression) :
    Reports Resolved.IsPlaceholder (session.resolve room formatter place e) := by
  induction room generalizing place e with
  | zero => exact reports_failed _ _
  | succ room ih =>
    exact (reports_failed _ _).guarded
      (Level.reports_expression (session.frames_level room formatter) ih place e.peeled)

end Fluent
