/-
# Constant patterns

A pattern of texts and string literals alone stands for one text, whatever the values of variables,
the locale, the functions and the settings are.

* `Pattern.constant?` : the text of a constant pattern;
* `Formatter.format_constant` : a message with such a pattern is formatted as this text, as long as
  two levels of depth are free.
-/
import Fluent.Proofs.Format.IdealFormat

namespace Fluent

open Resolving

/-- The text of an element that is a text or a string literal. -/
def PatternElement.constant? : PatternElement → Option (List Char)
  | .text value => some value.toList
  | .placeable (.string l) => some l.value.toList
  | .placeable _ => none

/-- The text of a pattern whose elements are texts and string literals. -/
def Pattern.constant? : Pattern → Option (List Char)
  | [] => some []
  | element :: rest =>
    match element.constant?, Pattern.constant? rest with
    | some text, some texts => some (text ++ texts)
    | _, _ => none

/-- A pattern is constant exactly when each of its elements is, and its text is theirs in a row. -/
theorem Pattern.constant?_cons_eq_some {element : PatternElement} {rest : Pattern}
    {text : List Char} :
    Pattern.constant? (element :: rest) = some text ↔
      ∃ own, element.constant? = some own ∧ ∃ texts, Pattern.constant? rest = some texts ∧
        own ++ texts = text := by
  rw [Pattern.constant?]
  cases element.constant? <;> cases Pattern.constant? rest <;> simp

namespace Level

variable {level : Level} {s : Setting}

/-- The elements of a constant pattern have its text, if string literals are resolved. -/
theorem yields_elements_constant
    (hstring : ∀ place l, Yields s (level.resolve place (.string l)) (.value (.string l.value) = ·))
    (isolating : Bool) (place : Place) {p : Pattern} {text : List Char}
    (h : Pattern.constant? p = some text) (index : Nat) :
    Yields s (level.elements isolating place index p) (text = ·) := by
  induction p generalizing text index with
  | nil =>
    obtain rfl := Option.some.inj h
    exact yields_pure []
  | cons element rest ih =>
    obtain ⟨own, helement, texts, hrest, rfl⟩ := Pattern.constant?_cons_eq_some.1 h
    cases element with
    | text value =>
      obtain rfl := Option.some.inj helement
      exact (yields_map (value.toList ++ ·) (ih hrest _)).congr fun text => by simp
    | placeable e =>
      cases e with
      | string l =>
        obtain rfl := Option.some.inj helement
        -- a string literal is never isolated, so its text stands as it is
        have htexts := fun own : List Char =>
          yields_map (isolated (isolating && false) own ++ ·) (ih hrest (index + 1))
        have hresult := fun result : Resolved => frames_bind (congruence_frames.text result)
          fun own => (htexts own).frames
        have hvalue : ∀ result : Resolved, .value (.string l.value) = result →
            Yields s (result.text >>= fun own =>
              (isolated (isolating && false) own ++ ·) <$>
                level.elements isolating place (index + 1) rest)
              (l.value.toList ++ texts = ·) := by
          rintro _ rfl
          refine (yields_bind (yields_ofOption (some l.value.toList)) htexts).congr fun text => ?_
          simp [isolated]
        exact (yields_bind_of (hstring _ l) hresult hvalue).congr fun text => by simp
      | number | var | message | term | function | select | placeable => cases helement

/-- So has a message with a constant pattern, if it is not being resolved. -/
theorem yields_message_constant
    (hstring : ∀ {s' : Setting}, s'.depth = s.depth → ∀ place l,
      Yields s' (level.resolve place (.string l)) (.value (.string l.value) = ·))
    {id : String} {m : Message} {p : Pattern} {text : List Char}
    (hmessage : level.formatter.catalog.message? id = some m) (hvalue : m.value = some p)
    (hp : Pattern.constant? p = some text) (hfresh : ⟨.message id none, []⟩ ∉ s.trail) :
    Yields s (level.message id none) (.ofText text = ·) := by
  have hdepth : (s.inside ⟨.message id none, []⟩).depth = s.depth := rfl
  have helements : Yields (s.inside ⟨.message id none, []⟩)
      (level.elements (level.isolates p) ⟨.message id none, []⟩ 0 p) (text = ·) :=
    yields_elements_constant (hstring hdepth) _ _ hp 0
  have hpattern := yields_pattern_of helements (referenceLabel id none)
  rw [Level.message, hmessage]
  dsimp only
  rw [hvalue]
  exact (yields_map Resolved.ofText hpattern).congr fun result => by simp [hfresh]

end Level

/-- A string literal is resolved wherever a level is free. -/
theorem Session.yields_resolve_string (session : Session) (room : Nat) {formatter : Formatter}
    {s : Setting} (hlimit : s.depth < formatter.limit) (place : Place) (l : StringLiteral) :
    Yields s (session.resolve (room + 1) formatter place (.string l))
      (.value (.string l.value) = ·) :=
  yields_guarded hlimit (frames_tooDeep _) (yields_pure _)

/-- A message with a constant pattern is formatted as the text of the pattern. -/
theorem Formatter.format_constant {formatter : Formatter} {id : String} {m : Message} {p : Pattern}
    {text : List Char} (hmessage : formatter.catalog.message? id = some m)
    (hvalue : m.value = some p) (hp : Pattern.constant? p = some text)
    (hdepth : 2 ≤ formatter.limit) (args : Arguments) :
    formatter.format id none args = ⟨text, []⟩ := by
  obtain ⟨room, hroom⟩ := Nat.exists_eq_add_of_le' hdepth
  -- the message takes a level, and each literal in it another one
  have hread : Yields ⟨args, [], 0⟩
      (Session.resolve ⟨formatter, []⟩ (room + 2) formatter ⟨.standalone, []⟩ (.message ⟨id⟩ none))
      (.ofText text = ·) := by
    refine yields_guarded (Nat.lt_of_lt_of_le Nat.two_pos hdepth) (Session.frames_tooDeep _) ?_
    refine Level.yields_message_constant (fun hs place l => ?_) hmessage hvalue hp List.not_mem_nil
    exact Session.yields_resolve_string ⟨formatter, []⟩ room (hs ▸ hdepth) place l
  rw [Formatter.format, formatter.session_format_eq id none args (Nat.le_of_eq hroom),
    contained_eq_iff]
  have htext : (Resolved.ofText text).text = pure text := by
    rw [Resolved.ofText, Resolved.text, Value.text?, String.toList_ofList]
    rfl
  obtain ⟨after, hafter, herrors⟩ := (hread.iff { args := args } rfl _).2 rfl
  refine ⟨after, (bind_of_returned hafter).trans ?_, herrors⟩
  rw [htext]
  rfl

end Fluent
