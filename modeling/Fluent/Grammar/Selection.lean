/-
# Selections

`selector -> variants`: the variants stand on lines of their own, each with a key in brackets, the
default one behind a star.  `body` reads what a placeable holds: a selection or an inline
expression.
-/
import Fluent.Grammar.Expression
import Fluent.Grammar.Pattern

namespace Fluent.Grammar

/-- Reads the key of a variant: a number or an identifier. -/
def keyText (c : Cursor) : Reading (VariantKey × Cursor) :=
  if c.current.any fun ch => ch.isDigit || ch == '-' then do
    let (literal, stop) ← number c
    return (.number literal, stop)
  else do
    let (name, stop) ← identifier c
    return (.identifier ⟨name⟩, stop)

/-- Reads the key of a variant with its brackets. -/
def variantKey (c : Cursor) : Reading (VariantKey × Cursor) := do
  let start ← expectChar c '['
  let (key, stop) ← keyText start.skipBlank
  let stop ← expectChar stop.skipBlank ']'
  return (key, stop)

/-- Reads the key and the value of a variant from the bracket on. -/
def variant (deep : Nested) (isDefault : Bool) (c : Cursor) : Reading (Variant × Cursor) := do
  let (key, start) ← variantKey c
  let (value, stop) ← pattern deep start.skipBlankInline
  match value with
  | some value => return (⟨key, value, isDefault⟩, stop)
  | none => stop.fail .missingValue

theorem keyText_lt {c stop : Cursor} {key : VariantKey} (h : keyText c = .ok (key, stop)) :
    c < stop := by
  unfold keyText at h
  split at h
  · exact lt_of_map number_lt h
  · exact lt_of_map (f := fun name => VariantKey.identifier ⟨name⟩) identifier_lt h

/-- A variant key reads at least its brackets. -/
theorem variantKey_lt {c stop : Cursor} {key : VariantKey}
    (h : variantKey c = .ok (key, stop)) : c < stop := by
  obtain ⟨start, hs, h⟩ := bind_eq_ok.1 h
  obtain ⟨⟨k, last⟩, hk, h⟩ := bind_eq_ok.1 h
  obtain ⟨close, hc, h⟩ := bind_eq_ok.1 h
  obtain ⟨-, rfl⟩ := Prod.mk.inj (Except.ok.inj h)
  exact Cursor.lt_trans (Cursor.lt_of_lt_of_le (expectChar_lt hs) (Cursor.le_skipBlank start))
    (Cursor.lt_trans (Cursor.lt_of_lt_of_le (keyText_lt hk) (Cursor.le_skipBlank last))
      (expectChar_lt hc))

/-- A variant reads at least its key. -/
theorem variant_lt {deep : Nested} {isDefault : Bool} {c stop : Cursor} {v : Variant}
    (h : variant deep isDefault c = .ok (v, stop)) : c < stop := by
  obtain ⟨⟨key, start⟩, hk, h⟩ := bind_eq_ok.1 h
  obtain ⟨⟨value, last⟩, hp, h⟩ := bind_eq_ok.1 h
  have hlt : c < last := Cursor.lt_of_lt_of_le (variantKey_lt hk)
    (Cursor.le_trans (Cursor.le_skipBlankInline start) (pattern_le hp))
  dsimp only at h
  split at h
  · obtain ⟨-, rfl⟩ := Prod.mk.inj (Except.ok.inj h)
    exact hlt
  · exact absurd h fail_ne_ok

/-- The cursor behind the star of a default variant, if a star is there. -/
def skipStar (c : Cursor) : Cursor :=
  if c.current = some '*' then c.bump else c

theorem le_skipStar (c : Cursor) : c ≤ skipStar c := by
  unfold skipStar
  split
  · exact Cursor.le_bump c
  · exact Cursor.le_refl c

/-- Reads variants as long as the next line that is not blank starts one.  `variants` holds, in
reverse, those read before. -/
def variantsFrom (deep : Nested) (variants : List Variant) (c : Cursor) :
    Reading (List Variant × Cursor) :=
  let line := c.skipBlank
  let isDefault := line.current == some '*'
  if c.current = some '\n' ∧ (skipStar line).current = some '[' then
    match _hv : variant deep isDefault (skipStar line) with
    | .error failure => .error failure
    | .ok (v, stop) => variantsFrom deep (v :: variants) stop
  else if c.current = some '\n' ∧ isDefault then
    (skipStar line).fail (.expectedToken '[')
  else if variants.isEmpty then
    c.fail .missingVariants
  else
    .ok (variants.reverse, c)
termination_by c.rest.length
decreasing_by
  exact Cursor.length_lt_of_lt (Cursor.lt_of_le_of_lt
    (Cursor.le_trans (Cursor.le_skipBlank c) (le_skipStar line)) (variant_lt _hv))

/-- Reads the variants behind the arrow; they start on a new line. -/
def variants (deep : Nested) (c : Cursor) : Reading (List Variant × Cursor) :=
  if c.current = some '\n' then variantsFrom deep [] c else c.fail .expectedLineEnd

/-- An expression that may not stand before the arrow is refused. -/
def checkSelector (selector : Expression) (c : Cursor) : Reading Unit :=
  match selector with
  | .message .. => c.fail .messageReferenceAsSelector
  | .term _ none _ => c.fail .termReferenceAsSelector
  | .placeable _ | .select _ => c.fail .expectedSimpleSelector
  | _ => .ok ()

/-- The arrow stands at the cursor. -/
def atArrow (c : Cursor) : Bool :=
  c.startsWith ['-', '>']

/-- Reads what a placeable holds. -/
def body (deep : Nested) (c : Cursor) : Reading (Expression × Cursor) := do
  let (selector, after) ← inlineExpression deep c
  let arrow := after.skipBlank
  if atArrow arrow then
    checkSelector selector c
    let (list, stop) ← variants deep (arrow.advance 2).skipBlankInline
    match Selection.build selector list with
    | .ok selection => return (.select selection, stop)
    | .error reason => arrow.fail reason.failureKind
  else
    match selector with
    | .term _ (some _) _ => c.fail .termAttributeAsPlaceable
    | _ => return (selector, after)

/-! ## Selections are not empty -/

theorem variantsFrom_le {deep : Nested} {before list : List Variant} {c stop : Cursor}
    (h : variantsFrom deep before c = .ok (list, stop)) : c ≤ stop := by
  fun_induction variantsFrom deep before c with
  | case1 => cases h
  | case2 _ c line _ _ _ _ hv ih =>
    exact Cursor.le_trans (Cursor.le_trans (Cursor.le_skipBlank c) (le_skipStar line))
      (Cursor.le_trans (Cursor.le_of_lt (variant_lt hv)) (ih h))
  | case3 | case4 => exact absurd h fail_ne_ok
  | case5 =>
    obtain ⟨-, rfl⟩ := Prod.mk.inj (Except.ok.inj h)
    exact Cursor.le_refl _

theorem variants_le {deep : Nested} {list : List Variant} {c stop : Cursor}
    (h : variants deep c = .ok (list, stop)) : c ≤ stop := by
  unfold variants at h
  split at h
  · exact variantsFrom_le h
  · exact absurd h fail_ne_ok

/-- The body of a placeable, a selection or not, reads at least one character. -/
theorem body_lt {deep : Nested} {e : Expression} {c stop : Cursor}
    (h : body deep c = .ok (e, stop)) : c < stop := by
  obtain ⟨⟨selector, after⟩, hs, h⟩ := bind_eq_ok.1 h
  have hlt := inlineExpression_lt hs
  dsimp only at h
  split at h
  · obtain ⟨-, -, h⟩ := bind_eq_ok.1 h
    obtain ⟨⟨list, last⟩, hv, h⟩ := bind_eq_ok.1 h
    have hle : after ≤ last := Cursor.le_trans (Cursor.le_skipBlank after)
      (Cursor.le_trans (Cursor.le_advance 2 _)
        (Cursor.le_trans (Cursor.le_skipBlankInline _) (variants_le hv)))
    dsimp only at h
    split at h
    · obtain ⟨-, rfl⟩ := Prod.mk.inj (Except.ok.inj h)
      exact Cursor.lt_of_lt_of_le hlt hle
    · exact absurd h fail_ne_ok
  · split at h
    · exact absurd h fail_ne_ok
    · obtain ⟨-, rfl⟩ := Prod.mk.inj (Except.ok.inj h)
      exact hlt

end Fluent.Grammar
