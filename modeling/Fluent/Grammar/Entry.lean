/-
# Entries

Messages, terms and comments.  The rules take an allowance of nesting; the cursor behind an entry
stands on the end of its last line.
-/
import Fluent.Grammar.Comment
import Fluent.Grammar.Placeable

namespace Fluent.Grammar

/-- Reads blanks, an equals sign, blanks, and a pattern. -/
def assigned (deep : Nested) (c : Cursor) : Reading (Option Pattern × Cursor) := do
  let start ← expectChar c.skipBlankInline '='
  pattern deep start.skipBlankInline

/-- Reads an attribute from its point on. -/
def oneAttribute (deep : Nested) (c : Cursor) : Reading (Attribute × Cursor) := do
  let (name, stop) ← identifier (← expectChar c '.')
  let (value, stop) ← assigned deep stop
  match value with
  | some value => return (⟨⟨name⟩, value⟩, stop)
  | none => stop.fail .missingValue

/-- The equals sign and the value behind it read at least one character. -/
theorem assigned_lt {deep : Nested} {p : Option Pattern} {c stop : Cursor}
    (h : assigned deep c = .ok (p, stop)) : c < stop := by
  obtain ⟨start, hs, h⟩ := bind_eq_ok.1 h
  exact Cursor.lt_of_le_of_lt (Cursor.le_skipBlankInline c) (Cursor.lt_of_lt_of_le
    (expectChar_lt hs) (Cursor.le_trans (Cursor.le_skipBlankInline start) (pattern_le h)))

/-- An attribute is read from a point, a name and a value. -/
theorem oneAttribute_cases {deep : Nested} {a : Attribute} {c stop : Cursor}
    (h : oneAttribute deep c = .ok (a, stop)) :
    ∃ start behind, expectChar c '.' = .ok start ∧ identifier start = .ok (a.id.name, behind) ∧
      assigned deep behind = .ok (some a.value, stop) := by
  obtain ⟨start, hs, h⟩ := bind_eq_ok.1 h
  obtain ⟨⟨name, behind⟩, hi, h⟩ := bind_eq_ok.1 h
  obtain ⟨⟨value, last⟩, hv, h⟩ := bind_eq_ok.1 h
  dsimp only at h
  split at h
  · obtain ⟨rfl, rfl⟩ := Prod.mk.inj (Except.ok.inj h)
    exact ⟨start, behind, hs, hi, hv⟩
  · exact absurd h fail_ne_ok

/-- An attribute reads at least its full stop. -/
theorem oneAttribute_lt {deep : Nested} {attr : Attribute} {c stop : Cursor}
    (h : oneAttribute deep c = .ok (attr, stop)) : c < stop := by
  obtain ⟨start, behind, hs, hi, hv⟩ := oneAttribute_cases h
  exact Cursor.lt_trans (expectChar_lt hs) (Cursor.lt_trans (identifier_lt hi) (assigned_lt hv))

/-- Reads attributes as long as the next line that is not blank starts one.  `list` holds, in
reverse, those read before. -/
def attributesFrom (deep : Nested) (list : List Attribute) (c : Cursor) :
    Reading (List Attribute × Cursor) :=
  if c.current = some '\n' ∧ c.skipBlank.current = some '.' then
    match _ha : oneAttribute deep c.skipBlank with
    | .error failure => .error failure
    | .ok (attr, stop) => attributesFrom deep (attr :: list) stop
  else
    .ok (list.reverse, c)
termination_by c.rest.length
decreasing_by
  exact Cursor.length_lt_of_lt (Cursor.lt_of_le_of_lt (Cursor.le_skipBlank c) (oneAttribute_lt _ha))

/-- Reads the attributes on the lines that follow. -/
def attributes (deep : Nested) (c : Cursor) : Reading (List Attribute × Cursor) :=
  attributesFrom deep [] c

/-- Reads a message; it has a value or an attribute. -/
def message (deep : Nested) (c : Cursor) : Reading (Message × Cursor) := do
  let (name, stop) ← identifier c
  let (value, stop) ← assigned deep stop
  let (list, stop) ← attributes deep stop
  if value.isNone && list.isEmpty then
    c.fail (.expectedMessageField name)
  else
    return (⟨⟨name⟩, value, list, none⟩, stop)

/-- Reads a term; it has a value. -/
def term (deep : Nested) (c : Cursor) : Reading (Term × Cursor) := do
  let (name, stop) ← identifier (← expectChar c '-')
  let (value, stop) ← assigned deep stop
  match value with
  | none => c.fail (.expectedTermField name)
  | some value =>
    let (list, stop) ← attributes deep stop
    return (⟨⟨name⟩, value, list, none⟩, stop)

/-- Reads a message, a term or a comment. -/
def entry (deep : Nested) (c : Cursor) : Reading (Entry × Cursor) :=
  if c.current = some '#' then do
    let (found, stop) ← comment c
    return (.comment found, stop)
  else if c.current = some '-' then do
    let (found, stop) ← term deep c
    return (.term found, stop)
  else if c.current.any isIdentifierStart then do
    let (found, stop) ← message deep c
    return (.message found, stop)
  else
    .error ⟨c.pos, .expectedEntry, ["a message", "a term", "a comment"]⟩

/-! ## What was read -/

/-- A message is read from a name, a value and attributes, with one of these two. -/
theorem message_cases {deep : Nested} {m : Message} {c stop : Cursor}
    (h : message deep c = .ok (m, stop)) :
    ∃ behind start, identifier c = .ok (m.id.name, behind) ∧
      assigned deep behind = .ok (m.value, start) ∧
        attributesFrom deep [] start = .ok (m.attributes, stop) ∧
          (m.value.isNone && m.attributes.isEmpty) = false ∧ m.comment = none := by
  obtain ⟨⟨name, behind⟩, hi, h⟩ := bind_eq_ok.1 h
  obtain ⟨⟨value, start⟩, hv, h⟩ := bind_eq_ok.1 h
  obtain ⟨⟨list, last⟩, hl, h⟩ := bind_eq_ok.1 h
  dsimp only at h
  split at h
  · exact absurd h fail_ne_ok
  · rename_i hfield
    obtain ⟨rfl, rfl⟩ := Prod.mk.inj (Except.ok.inj h)
    exact ⟨behind, start, hi, hv, hl, by simpa using hfield, rfl⟩

/-- A term is read from a minus, a name, a value and attributes. -/
theorem term_cases {deep : Nested} {t : Term} {c stop : Cursor}
    (h : term deep c = .ok (t, stop)) :
    ∃ first behind start, expectChar c '-' = .ok first ∧
      identifier first = .ok (t.id.name, behind) ∧
        assigned deep behind = .ok (some t.value, start) ∧
          attributesFrom deep [] start = .ok (t.attributes, stop) ∧ t.comment = none := by
  obtain ⟨first, hs, h⟩ := bind_eq_ok.1 h
  obtain ⟨⟨name, behind⟩, hi, h⟩ := bind_eq_ok.1 h
  obtain ⟨⟨value, start⟩, hv, h⟩ := bind_eq_ok.1 h
  dsimp only at h
  split at h
  · exact absurd h fail_ne_ok
  · obtain ⟨⟨list, last⟩, hl, h⟩ := bind_eq_ok.1 h
    obtain ⟨rfl, rfl⟩ := Prod.mk.inj (Except.ok.inj h)
    exact ⟨first, behind, start, hs, hi, hv, hl, rfl⟩

/-- What is read as an entry is read as a comment, a term or a message. -/
theorem entry_cases {deep : Nested} {found : Entry} {c stop : Cursor}
    (h : entry deep c = .ok (found, stop)) :
    (∃ text, found = .comment text ∧ c.current = some '#' ∧ comment c = .ok (text, stop)) ∨
      (∃ t, found = .term t ∧ c.current = some '-' ∧ term deep c = .ok (t, stop)) ∨
        ∃ m, found = .message m ∧ message deep c = .ok (m, stop) := by
  unfold entry at h
  split at h
  · rename_i hc
    obtain ⟨⟨text, last⟩, htext, h⟩ := bind_eq_ok.1 h
    obtain ⟨rfl, rfl⟩ := Prod.mk.inj (Except.ok.inj h)
    exact .inl ⟨text, rfl, hc, htext⟩
  split at h
  · rename_i hc
    obtain ⟨⟨t, last⟩, ht, h⟩ := bind_eq_ok.1 h
    obtain ⟨rfl, rfl⟩ := Prod.mk.inj (Except.ok.inj h)
    exact .inr (.inl ⟨t, rfl, hc, ht⟩)
  split at h
  · obtain ⟨⟨m, last⟩, hm, h⟩ := bind_eq_ok.1 h
    obtain ⟨rfl, rfl⟩ := Prod.mk.inj (Except.ok.inj h)
    exact .inr (.inr ⟨m, rfl, hm⟩)
  · cases h

/-! ## Entries are not empty -/

/-- A list of attributes never moves back; it may be empty. -/
theorem attributesFrom_le {deep : Nested} {before list : List Attribute} {c stop : Cursor}
    (h : attributesFrom deep before c = .ok (list, stop)) : c ≤ stop := by
  fun_induction attributesFrom deep before c with
  | case1 => cases h
  | case2 _ c _ _ _ ha ih =>
    exact Cursor.le_trans (Cursor.le_skipBlank c)
      (Cursor.le_trans (Cursor.le_of_lt (oneAttribute_lt ha)) (ih h))
  | case3 =>
    obtain ⟨-, rfl⟩ := Prod.mk.inj (Except.ok.inj h)
    exact Cursor.le_refl _

/-- A message reads at least its name. -/
theorem message_lt {deep : Nested} {m : Message} {c stop : Cursor}
    (h : message deep c = .ok (m, stop)) : c < stop := by
  obtain ⟨behind, start, hi, hv, hl, -, -⟩ := message_cases h
  exact Cursor.lt_trans (identifier_lt hi)
    (Cursor.lt_of_lt_of_le (assigned_lt hv) (attributesFrom_le hl))

/-- A term reads at least its hyphen. -/
theorem term_lt {deep : Nested} {t : Term} {c stop : Cursor}
    (h : term deep c = .ok (t, stop)) : c < stop := by
  obtain ⟨first, behind, start, hs, hi, hv, hl, -⟩ := term_cases h
  exact Cursor.lt_trans (Cursor.lt_trans (expectChar_lt hs) (identifier_lt hi))
    (Cursor.lt_of_lt_of_le (assigned_lt hv) (attributesFrom_le hl))

/-- An entry reads at least one character, so the loop over the entries of a text ends. -/
theorem entry_lt {deep : Nested} {e : Entry} {c stop : Cursor}
    (h : entry deep c = .ok (e, stop)) : c < stop := by
  rcases entry_cases h with ⟨text, -, -, htext⟩ | ⟨t, -, -, ht⟩ | ⟨m, -, hm⟩
  · exact comment_lt htext
  · exact term_lt ht
  · exact message_lt hm

end Fluent.Grammar
