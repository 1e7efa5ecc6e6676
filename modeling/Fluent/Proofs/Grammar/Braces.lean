/-
# Braces in a row

Opening all braces that stand directly inside each other in one go, and closing them afterwards,
reads the same as plain recursion, where an inner brace is an expression like any other.

* `closeBody_wrapped` : one brace more to be closed is one level of recursion;
* `nested_eq_plainNested` : the two sets of rules are equal, failures and their places included;
* `placeable_recursive` : the recursion, written out at one level.
-/
import Fluent.Grammar.Placeable

namespace Fluent.Grammar

/-- Rules are equal if they answer the same everywhere. -/
theorem Rule.ext_run {α : Type} {a b : Rule α} (h : ∀ c, a.run c = b.run c) : a = b := by
  cases a
  cases b
  congr
  exact funext h

/-- Sets of rules are equal if their rules answer the same everywhere. -/
theorem Nested.ext_run {a b : Nested}
    (hp : ∀ wrappers c, (a.placeable wrappers).run c = (b.placeable wrappers).run c)
    (ha : ∀ c, a.arguments.run c = b.arguments.run c) : a = b := by
  cases a
  cases b
  congr
  · exact funext fun wrappers => Rule.ext_run (hp wrappers)
  · exact Rule.ext_run ha

/-- No number starts with a brace. -/
theorem startsNumber_brace {c : Cursor} (h : c.current = some '{') : startsNumber c = false := by
  simp [startsNumber, h]

/-- Where a brace stands, an inline expression is a placeable. -/
theorem inlineExpression_brace (deep : Nested) {c : Cursor} (h : c.current = some '{') :
    inlineExpression deep c = do
      let (inner, stop) ← (deep.placeable []).run c
      return (.placeable inner, stop) := by
  simp [inlineExpression, startsNumber_brace h, h]

/-- Where a brace stands, what a placeable holds is a placeable on which nothing is selected. -/
theorem body_brace (deep : Nested) {c : Cursor} (h : c.current = some '{') :
    body deep c = do
      let (inner, stop) ← (deep.placeable []).run c
      if atArrow stop.skipBlank then c.fail .expectedSimpleSelector
      else return (.placeable inner, stop) := by
  rw [body, inlineExpression_brace deep h]
  cases (deep.placeable []).run c with
  | error failure => rfl
  | ok found =>
    obtain ⟨inner, stop⟩ := found
    show (if atArrow stop.skipBlank then _ else _) = (if atArrow stop.skipBlank then _ else _)
    split
    · rfl
    · rfl

/-- One brace more that is to be closed. -/
theorem closeBody_wrapped (deep outer : Nested) (wrappers : List Nat) {c : Cursor}
    (hc : c.current = some '{')
    (houter : (outer.placeable []).run c
      = do closeBody deep [] (← expectChar c '{').skipBlank) :
    closeBody outer wrappers c
      = (do closeBody deep (c.pos :: wrappers) (← expectChar c '{').skipBlank) := by
  have hopen : expectChar c '{' = .ok c.bump := expectChar_eq_ok.2 ⟨hc, rfl⟩
  rw [closeBody, body_brace outer hc, houter, hopen]
  show _ = closeBody deep (c.pos :: wrappers) c.bump.skipBlank
  show ((closeBody deep [] c.bump.skipBlank >>= _) >>= _) = _
  unfold closeBody
  cases body deep c.bump.skipBlank with
  | error failure => rfl
  | ok found =>
    obtain ⟨e, stop⟩ := found
    show (((expectChar stop.skipBlank '}' >>= _) >>= _) >>= _)
      = (expectChar stop.skipBlank '}' >>= _)
    cases expectChar stop.skipBlank '}' with
    | error failure => rfl
    | ok close =>
      show ((if atArrow close.skipBlank then _ else _) >>= _)
        = (if atArrow close.skipBlank then _ else _)
      split
      · rfl
      · rfl

/-- **Opening braces in a row is plain recursion.** -/
theorem nested_eq_plainNested (limit left : Nat) : nested limit left = plainNested limit left := by
  induction left with
  | zero => rfl
  | succ left ih =>
    refine Nested.ext_run (fun wrappers c => ?_) fun c => ?_
    · show placeable (nested limit left) wrappers c
        = do closeBody (plainNested limit left) wrappers (← expectChar c '{').skipBlank
      rw [ih, placeable]
      cases expectChar c '{' with
      | error failure => rfl
      | ok start =>
        show (if start.skipBlank.current = some '{' then _ else _) = closeBody _ _ _
        split
        · rename_i hstart
          -- without a level left both fail at the inner brace
          cases left with
          | zero =>
            rw [closeBody, body_brace _ hstart]
            rfl
          | succ left =>
            exact (closeBody_wrapped (plainNested limit left) (plainNested limit (left + 1))
              wrappers hstart rfl).symm
        · rfl
    · show arguments (nested limit left) c = arguments (plainNested limit left) c
      rw [ih]

/-- What a placeable holds, with the case of another brace written out: the placeable there is an
expression, unless an arrow follows. -/
def plainBody (deep : Nested) (start : Cursor) : Reading (Expression × Cursor) :=
  if start.current = some '{' then do
    let (inner, stop) ← (deep.placeable []).run start
    if atArrow stop.skipBlank then start.fail .expectedSimpleSelector
    else return (.placeable inner, stop)
  else body deep start

/-- A body read without counting braces is the body. -/
theorem plainBody_eq_body (deep : Nested) (start : Cursor) :
    plainBody deep start = body deep start := by
  unfold plainBody
  split
  · rename_i hbrace
    exact (body_brace deep hbrace).symm
  · rfl

/-- **A placeable is read by recursion.**  A level is taken at the brace, blanks are skipped, and
what stands there is read with the level taken: behind another brace by the same rules, which are
refused before an arrow.  Then blanks and the closing brace follow.  Values, ends and failures are
those of the rules that open braces in a row, and the recursion makes up all levels of them. -/
theorem placeable_recursive (allowance : Allowance) (c : Cursor) :
    ((allowance.rules.placeable []).run c = do
      let inside ← allowance.enter c
      let (e, stop) ← plainBody inside.rules (← expectChar c '{').skipBlank
      return (e, ← expectChar stop.skipBlank '}')) ∧
    allowance.rules = plainNested allowance.limit allowance.left := by
  refine ⟨?_, nested_eq_plainNested _ _⟩
  obtain ⟨limit, left⟩ := allowance
  cases left with
  | zero => rfl
  | succ left =>
    show ((nested limit (left + 1)).placeable []).run c = do
      let (e, stop) ← plainBody (nested limit left) (← expectChar c '{').skipBlank
      return (e, ← expectChar stop.skipBlank '}')
    rw [nested_eq_plainNested limit (left + 1), nested_eq_plainNested limit left]
    show (do closeBody (plainNested limit left) [] (← expectChar c '{').skipBlank) = _
    simp only [plainBody_eq_body]
    rfl

end Fluent.Grammar
