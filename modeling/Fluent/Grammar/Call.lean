/-
# Call arguments

Arguments in parentheses, separated by commas: first those given by position, then those given by
name, no name twice.  A comma may follow the last one.
-/
import Fluent.Grammar.Expression

namespace Fluent.Grammar

/-- An argument as it was given. -/
inductive Argument
  | positional (expression : Expression)
  | named (argument : NamedArgument)

/-- Reads an argument. -/
def argument (deep : Nested) (c : Cursor) : Reading (Argument × Cursor) := do
  let (expression, stop) ← inlineExpression deep c
  match expression with
  | .message id none =>
    if stop.skipBlank.current = some ':' then
      let (value, stop) ← literal stop.skipBlank.bump.skipBlank
      return (.named ⟨id, value⟩, stop)
    else
      return (.positional expression, stop)
  | _ => return (.positional expression, stop)

theorem argument_lt {deep : Nested} {c stop : Cursor} {a : Argument}
    (h : argument deep c = .ok (a, stop)) : c < stop := by
  obtain ⟨⟨e, last⟩, he, h⟩ := bind_eq_ok.1 h
  have hlt := inlineExpression_lt he
  dsimp only at h
  split at h
  · split at h
    · obtain ⟨⟨value, close⟩, hl, h⟩ := bind_eq_ok.1 h
      obtain ⟨-, rfl⟩ := Prod.mk.inj (Except.ok.inj h)
      exact Cursor.lt_of_lt_of_le hlt (Cursor.le_trans (Cursor.le_skipBlank last)
        (Cursor.le_trans (Cursor.le_bump _)
          (Cursor.le_trans (Cursor.le_skipBlank _) (Cursor.le_of_lt (literal_lt hl)))))
    · obtain ⟨-, rfl⟩ := Prod.mk.inj (Except.ok.inj h)
      exact hlt
  · obtain ⟨-, rfl⟩ := Prod.mk.inj (Except.ok.inj h)
    exact hlt

/-- The arguments read so far, in reverse. -/
structure ArgumentsSoFar where
  positional : List Expression
  named : List NamedArgument

namespace ArgumentsSoFar

/-- Adds the argument that starts at the cursor, unless it follows a named one by position or
repeats a name. -/
def push (soFar : ArgumentsSoFar) (c : Cursor) : Argument → Reading ArgumentsSoFar
  | .positional expression =>
    if soFar.named.isEmpty then .ok { soFar with positional := expression :: soFar.positional }
    else c.fail .positionalAfterNamed
  | .named argument =>
    if soFar.named.any fun earlier => earlier.name == argument.name then
      c.fail (.duplicateNamedArgument argument.name.name)
    else
      .ok { soFar with named := argument :: soFar.named }

/-- The arguments in order, at their closing parenthesis. -/
def close (soFar : ArgumentsSoFar) (c : Cursor) : Reading (CallArguments × Cursor) := do
  let stop ← expectChar c ')'
  match CallArguments.build soFar.positional.reverse soFar.named.reverse with
  | .ok arguments => return (arguments, stop)
  | .error reason => c.fail reason.failureKind

/-- Closing an argument list reads its parenthesis. -/
theorem close_lt {soFar : ArgumentsSoFar} {c stop : Cursor} {arguments : CallArguments}
    (h : soFar.close c = .ok (arguments, stop)) : c < stop := by
  obtain ⟨last, hl, h⟩ := bind_eq_ok.1 h
  split at h
  · obtain ⟨-, rfl⟩ := Prod.mk.inj (Except.ok.inj h)
    exact expectChar_lt hl
  · exact absurd h fail_ne_ok

end ArgumentsSoFar

/-- Reads an argument, the one that starts at the cursor, and adds it. -/
def nextArgument (deep : Nested) (soFar : ArgumentsSoFar) (c : Cursor) :
    Reading (ArgumentsSoFar × Cursor) := do
  let (given, stop) ← argument deep c
  let soFar ← soFar.push c given
  return (soFar, stop.skipBlank)

/-- One more argument, with the blanks behind it, reads at least one character. -/
theorem nextArgument_lt {deep : Nested} {soFar extended : ArgumentsSoFar} {c stop : Cursor}
    (h : nextArgument deep soFar c = .ok (extended, stop)) : c < stop := by
  obtain ⟨⟨given, last⟩, ha, h⟩ := bind_eq_ok.1 h
  obtain ⟨more, -, h⟩ := bind_eq_ok.1 h
  obtain ⟨-, rfl⟩ := Prod.mk.inj (Except.ok.inj h)
  exact Cursor.lt_of_lt_of_le (argument_lt ha) (Cursor.le_skipBlank last)

/-- Reads arguments up to the closing parenthesis. -/
def argumentsFrom (deep : Nested) (soFar : ArgumentsSoFar) (c : Cursor) :
    Reading (CallArguments × Cursor) :=
  if c.current = some ')' then
    soFar.close c
  else
    match _ha : nextArgument deep soFar c with
    | .error failure => .error failure
    | .ok (extended, stop) =>
      if stop.current = some ',' then argumentsFrom deep extended stop.bump.skipBlank
      else if stop.current = some ')' then extended.close stop
      else .error ⟨stop.pos, .expectedToken ')', ["\",\"", "\")\""]⟩
termination_by c.rest.length
decreasing_by
  exact Cursor.length_lt_of_lt (Cursor.lt_of_lt_of_le (nextArgument_lt _ha)
    (Cursor.le_trans (Cursor.le_bump _) (Cursor.le_skipBlank _)))

/-- Reads arguments with their parentheses; `deep` are the rules for what they hold. -/
def arguments (deep : Nested) (c : Cursor) : Reading (CallArguments × Cursor) := do
  let start ← expectChar c '('
  argumentsFrom deep ⟨[], []⟩ start.skipBlank

/-- The rest of an argument list reads at least its parenthesis. -/
theorem argumentsFrom_lt {deep : Nested} {soFar : ArgumentsSoFar} {c stop : Cursor}
    {list : CallArguments} (h : argumentsFrom deep soFar c = .ok (list, stop)) : c < stop := by
  fun_induction argumentsFrom deep soFar c with
  | case1 => exact ArgumentsSoFar.close_lt h
  | case2 | case5 => cases h
  | case3 _ _ _ _ last ha _ ih =>
    exact Cursor.lt_trans (Cursor.lt_of_lt_of_le (nextArgument_lt ha)
      (Cursor.le_trans (Cursor.le_bump last) (Cursor.le_skipBlank _))) (ih h)
  | case4 _ _ _ _ _ ha =>
    exact Cursor.lt_trans (nextArgument_lt ha) (ArgumentsSoFar.close_lt h)

/-- An argument list reads at least its opening parenthesis. -/
theorem arguments_lt {deep : Nested} {c stop : Cursor} {list : CallArguments}
    (h : arguments deep c = .ok (list, stop)) : c < stop := by
  obtain ⟨start, hs, h⟩ := bind_eq_ok.1 h
  exact Cursor.lt_trans (Cursor.lt_of_lt_of_le (expectChar_lt hs) (Cursor.le_skipBlank start))
    (argumentsFrom_lt h)

end Fluent.Grammar
