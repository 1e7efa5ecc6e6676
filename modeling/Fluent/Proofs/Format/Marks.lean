/-
# Texts with and without isolation marks

Isolation marks stand in a text only if a formatter put them there or if they were in the texts that
it was given: in its catalog, in the values of variables, or in what is asked for.  Numbers are
written without them.

* `Unmarked` : a text without marks, and what else holds only such texts;
* `Value.stripped`, `Resolved.stripped` : values and results without the marks of their texts;
* `Value.text?_stripped` : they are written without these marks.
-/
import Fluent.Format.Resolve
import Fluent.Proofs.Number.DecimalText
import Fluent.Proofs.Format.Subtrees

namespace Fluent

/-! ## Texts -/

/-- The text holds no isolation marks. -/
def Unmarked (text : List Char) : Prop :=
  ∀ ch ∈ text, ch ≠ isolateOpen ∧ ch ≠ isolateClose

instance (text : List Char) : Decidable (Unmarked text) :=
  List.decidableBAll (fun ch => ch ≠ isolateOpen ∧ ch ≠ isolateClose) text

/-- Two texts in a row are unmarked exactly when both are. -/
theorem unmarked_append {s t : List Char} : Unmarked (s ++ t) ↔ Unmarked s ∧ Unmarked t :=
  List.forall_mem_append

/-- Joining unmarked strings puts in no mark. -/
theorem unmarked_string_append {s t : String} (hs : Unmarked s.toList) (ht : Unmarked t.toList) :
    Unmarked (s ++ t).toList := by
  rw [String.toList_append]
  exact unmarked_append.2 ⟨hs, ht⟩

/-- A text of characters from an unmarked one is unmarked. -/
theorem Unmarked.subset {s t : List Char} (h : Unmarked t) (hsub : s ⊆ t) : Unmarked s :=
  fun ch hch => h ch (hsub hch)

/-- Exactly the texts without marks are left as they are. -/
theorem stripIsolates_eq_self_iff {text : List Char} :
    stripIsolates text = text ↔ Unmarked text := by
  simp [stripIsolates, Unmarked, List.filter_eq_self]

theorem unmarked_braced {label : String} (h : Unmarked label.toList) : Unmarked (braced label) := by
  refine unmarked_append.2 ⟨List.forall_mem_cons.2 ⟨by decide, h⟩, by decide⟩

/-! ## Numbers -/

theorem unmarked_of_isDigit {text : List Char} (h : ∀ ch ∈ text, ch.isDigit = true) :
    Unmarked text := by
  intro ch hch
  have hdigit := h ch hch
  constructor
  · rintro rfl
    exact absurd hdigit (by decide)
  · rintro rfl
    exact absurd hdigit (by decide)

theorem unmarked_natDigits (n : Nat) : Unmarked (natDigits n) :=
  unmarked_of_isDigit fun _ => isDigit_natDigits

theorem unmarked_replicate_zero (n : Nat) : Unmarked (List.replicate n '0') := by
  refine unmarked_of_isDigit fun ch hch => ?_
  rw [(List.mem_replicate.1 hch).2]
  rfl

/-- Putting a decimal point in puts in no mark. -/
theorem Unmarked.pointed {digits : List Char} (h : Unmarked digits) (places : Nat) :
    Unmarked (pointed places digits) := by
  have hfilled : Unmarked (List.replicate (places + 1 - digits.length) '0' ++ digits) :=
    unmarked_append.2 ⟨unmarked_replicate_zero _, h⟩
  unfold Fluent.pointed
  dsimp only
  split
  · exact hfilled.subset (List.take_subset _ _)
  · exact unmarked_append.2 ⟨hfilled.subset (List.take_subset _ _),
      List.forall_mem_cons.2 ⟨by decide, hfilled.subset (List.drop_subset _ _)⟩⟩

theorem unmarked_scaled (s : Scaled) : Unmarked s.text := by
  unfold Scaled.text
  split
  · exact unmarked_append.2 ⟨unmarked_natDigits _, unmarked_replicate_zero _⟩
  · exact (unmarked_natDigits _).pointed _

theorem unmarked_sign (negative : Bool) : Unmarked (if negative then ['-'] else []) := by
  cases negative <;> decide

/-- Numbers that are not finite are written without marks. -/
theorem unmarked_nonFinite (parts : FloatParts) : Unmarked (nonFiniteText parts) := by
  cases parts with
  | nan => decide
  | infinite negative => exact unmarked_append.2 ⟨unmarked_sign negative, by decide⟩
  | finite => exact List.forall_mem_nil _

theorem unmarked_floatText (x : Float) : Unmarked (floatText x) := by
  unfold floatText
  split
  · rename_i negative size _
    refine unmarked_append.2 ⟨unmarked_sign negative, ?_⟩
    split
    · decide
    · cases size.shortest? with
      | none => exact List.forall_mem_nil _
      | some s => exact unmarked_scaled s
  · exact unmarked_nonFinite _

theorem unmarked_fixedFloatText (places : Nat) (x : Float) :
    Unmarked (fixedFloatText places x) := by
  unfold fixedFloatText
  split
  · exact unmarked_append.2 ⟨unmarked_sign _, (unmarked_natDigits _).pointed _⟩
  · exact unmarked_nonFinite _

/-- Numbers are written without marks. -/
theorem NumberValue.unmarked_text? {n : NumberValue} {text : List Char} (h : n.text? = some text) :
    Unmarked text := by
  unfold NumberValue.text? at h
  dsimp only at h
  split at h
  · obtain rfl := Option.some.inj h
    exact unmarked_floatText _
  · split at h
    · obtain rfl := Option.some.inj h
      exact unmarked_fixedFloatText _ _
    · cases h

/-! ## Values and results -/

/-- A text without its marks. -/
def stripped (text : String) : String :=
  String.ofList (stripIsolates text.toList)

/-- Taking the marks out of an unmarked text changes nothing. -/
theorem stripped_eq_self {text : String} (h : Unmarked text.toList) : stripped text = text := by
  rw [stripped, stripIsolates_eq_self_iff.2 h, String.ofList_toList]

/-- The marks of a string are those of its characters. -/
theorem stripped_ofList (text : List Char) :
    stripped (String.ofList text) = String.ofList (stripIsolates text) := by
  rw [stripped, String.toList_ofList]

namespace Value

/-- The value without the marks of its text. -/
def stripped : Value → Value
  | .string text => .string (Fluent.stripped text)
  | v => v

/-- The value is no text that holds marks. -/
def Unmarked : Value → Prop
  | .string text => Fluent.Unmarked text.toList
  | _ => True

/-- Taking the marks out of an unmarked value changes nothing. -/
theorem Unmarked.stripped_eq {v : Value} (h : v.Unmarked) : v.stripped = v := by
  cases v with
  | string text => exact congrArg Value.string (stripped_eq_self h)
  | number | none => rfl

/-- What is written for a value without marks is what is written for it, without marks. -/
theorem text?_stripped (v : Value) : v.stripped.text? = v.text?.map stripIsolates := by
  cases v with
  | string text =>
    show some (Fluent.stripped text).toList = some (stripIsolates text.toList)
    rw [Fluent.stripped, String.toList_ofList]
  | none => rfl
  | number n =>
    show n.text? = n.text?.map stripIsolates
    cases h : n.text? with
    | none => rfl
    | some text => rw [Option.map_some, stripIsolates_eq_self_iff.2 (NumberValue.unmarked_text? h)]

end Value

/-- The result without the marks of its text. -/
def Resolved.stripped : Resolved → Resolved
  | .value v => .value v.stripped
  | .placeholder label => .placeholder (Fluent.stripped label)

/-- Taking the marks out of a text result takes them out of the text. -/
theorem Resolved.stripped_ofText (text : List Char) :
    (Resolved.ofText text).stripped = .ofText (stripIsolates text) :=
  congrArg (Resolved.value ∘ Value.string) (stripped_ofList text)

/-! ## Arguments -/

/-- No variable has a text with marks as its value. -/
def Arguments.Unmarked (args : Arguments) : Prop :=
  ∀ name v, args.find? name = some v → v.Unmarked

theorem Arguments.unmarked_empty : Arguments.Unmarked .empty :=
  nofun

/-- Arguments with unmarked values are unmarked. -/
theorem Arguments.unmarked_ofList {pairs : List (String × Value)}
    (h : ∀ pair ∈ pairs, pair.2.Unmarked) : Arguments.Unmarked (.ofList pairs) :=
  SortedMap.forall_ofList h

/-! ## Trees -/

/-- The texts of the arguments that are given by name. -/
def CallArguments.namedTexts (call : CallArguments) : List String :=
  call.named.filterMap fun argument =>
    match argument.value with
    | .string literal => some literal.value
    | .number _ => none

/-- The texts of an expression itself, without those that stand in it: names of what it refers to,
and literals. -/
def Expression.ownTexts : Expression → List String
  | .string literal => [literal.value]
  | .number _ | .select _ | .placeable _ => []
  | .var id => [id.name]
  | .message id attr => id.name :: (attr.map (·.name)).toList
  | .term id attr arguments =>
    id.name :: (attr.map (·.name)).toList ++ (arguments.map (·.namedTexts)).getD []
  | .function id call => id.name :: call.namedTexts

/-- The texts of an element itself. -/
def PatternElement.ownTexts : PatternElement → List String
  | .text value => [value]
  | .placeable e => e.ownTexts

/-- The texts of the element itself hold no marks. -/
def PatternElement.Unmarked (x : PatternElement) : Prop :=
  ∀ text ∈ x.ownTexts, Fluent.Unmarked text.toList

instance (x : PatternElement) : Decidable x.Unmarked :=
  List.decidableBAll (fun text : String => Fluent.Unmarked text.toList) x.ownTexts

/-- No text in the patterns of the catalog holds marks. -/
def Catalog.Unmarked (catalog : Catalog) : Prop :=
  ∀ x ∈ catalog.subtrees, x.Unmarked

instance (catalog : Catalog) : Decidable catalog.Unmarked :=
  List.decidableBAll PatternElement.Unmarked catalog.subtrees

/-- The named arguments of a call are unmarked if the texts in them are. -/
theorem unmarked_namedArguments {call : CallArguments}
    (h : ∀ text ∈ call.namedTexts, Unmarked text.toList) :
    Arguments.Unmarked (namedArguments call.named) := by
  refine Arguments.unmarked_ofList (List.forall_mem_map.2 fun argument hargument => ?_)
  cases hvalue : argument.value with
  | number literal => exact trivial
  | string literal =>
    exact h literal.value (List.mem_filterMap.2 ⟨argument, hargument, by rw [hvalue]⟩)

/-- The label of a reference to unmarked names is unmarked. -/
theorem unmarked_referenceLabel {id : String} {attr : Option String} (hid : Unmarked id.toList)
    (hattr : ∀ name ∈ attr.toList, Unmarked name.toList) :
    Unmarked (referenceLabel id attr).toList := by
  cases attr with
  | none => exact hid
  | some name =>
    exact unmarked_string_append (unmarked_string_append hid (by decide))
      (hattr name List.mem_cons_self)

end Fluent
