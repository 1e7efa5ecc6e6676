/-
# One round of each loop

The loops of the grammar carry proofs that they end.  Here each of them is unfolded once, without
those proofs:

* `patternFrom_eq` : the next text, placeable or line of a pattern, and `continuationFrom?_eq` : the
  search for that line;
* `variantsFrom_eq`, `argumentsFrom_eq`, `attributesFrom_eq` : the next variant, argument or
  attribute.
-/
import Fluent.Grammar.Entry

namespace Fluent.Grammar

/-- A further blank line is passed, or a line is found or not. -/
theorem continuationFrom?_eq (blankLines : Nat) (line : Cursor) :
    continuationFrom? blankLines line =
      match line.skipBlankInline.current with
      | none => none
      | some ch =>
        if ch = '\n' then continuationFrom? (blankLines + 1) line.skipBlankInline.bump
        else if (line.leading (· == ' ')).length = 0 || endsPattern ch then none
        else some ⟨blankLines, (line.leading (· == ' ')).length, line.skipBlankInline⟩ := by
  rw [continuationFrom?]
  split
  · rename_i hc
    rw [hc]
  · rename_i hc
    rw [hc]
    rfl
  · rename_i ch hfeed hc
    rw [hc]
    exact (if_neg hfeed).symm

/-- A further text, placeable or line is read, or the pattern ends. -/
theorem patternFrom_eq (deep : Nested) (b : PatternBuilder) (common : Option Nat) (c : Cursor) :
    patternFrom deep b common c =
      match c.current with
      | none => .ok (b.finish, c)
      | some ch =>
        if ch = '{' then do
          let (expression, next) ← (deep.placeable []).run c
          patternFrom deep (b.pushPlaceable expression) common next
        else if ch = '}' then
          c.fail .unbalancedClosingBrace
        else if ch = '\n' then
          match continuation? c with
          | none => .ok (b.finish, c)
          | some next =>
            patternFrom deep
              (if b.isEmpty then b
                else b.pushText (continuationText next (common.getD next.indent)))
              (some (common.getD next.indent)) next.resume
        else
          patternFrom deep (b.pushText (c.leading isText)) common (c.skipWhile isText) := by
  rw [patternFrom]
  split
  · rename_i h
    rw [h]
  · rename_i ch h
    rw [h]
    dsimp only
    split
    · split <;> rename_i hp <;> rw [hp] <;> rfl
    · split
      · rfl
      · split
        · split <;> rename_i hn <;> rw [hn]
        · rfl

/-- A further variant is read, or the variants end. -/
theorem variantsFrom_eq (deep : Nested) (before : List Variant) (c : Cursor) :
    variantsFrom deep before c =
      if c.current = some '\n' ∧ (skipStar c.skipBlank).current = some '[' then do
        let (v, stop) ← variant deep (c.skipBlank.current == some '*') (skipStar c.skipBlank)
        variantsFrom deep (v :: before) stop
      else if c.current = some '\n' ∧ c.skipBlank.current == some '*' then
        (skipStar c.skipBlank).fail (.expectedToken '[')
      else if before.isEmpty then
        c.fail .missingVariants
      else
        .ok (before.reverse, c) := by
  rw [variantsFrom]
  dsimp only
  split
  · split <;> rename_i hv <;> rw [hv] <;> rfl
  · rfl

/-- A further argument is read, or the arguments are closed. -/
theorem argumentsFrom_eq (deep : Nested) (soFar : ArgumentsSoFar) (c : Cursor) :
    argumentsFrom deep soFar c =
      if c.current = some ')' then
        soFar.close c
      else (do
        let (extended, stop) ← nextArgument deep soFar c
        if stop.current = some ',' then argumentsFrom deep extended stop.bump.skipBlank
        else if stop.current = some ')' then extended.close stop
        else .error ⟨stop.pos, .expectedToken ')', ["\",\"", "\")\""]⟩) := by
  rw [argumentsFrom]
  split
  · rfl
  · split <;> rename_i ha <;> rw [ha] <;> rfl

/-- A further attribute is read, or the attributes end. -/
theorem attributesFrom_eq (deep : Nested) (before : List Attribute) (c : Cursor) :
    attributesFrom deep before c =
      if c.current = some '\n' ∧ c.skipBlank.current = some '.' then do
        let (attr, stop) ← oneAttribute deep c.skipBlank
        attributesFrom deep (attr :: before) stop
      else
        .ok (before.reverse, c) := by
  rw [attributesFrom]
  split
  · split <;> rename_i ha <;> rw [ha] <;> rfl
  · rfl

end Fluent.Grammar
