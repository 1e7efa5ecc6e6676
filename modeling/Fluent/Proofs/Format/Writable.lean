/-
# What can be written

A number is written with as many digits behind the point as its shortest text has, unless its
options ask for more or for fewer.  The shortest text of a float has few of them, so a number can be
written unless it asks for more digits than there may be.

* `NumberValue.text?_eq_none_iff` : which numbers cannot be written;
* `NumberLiteral.Checked.writable` : the numbers of checked literals can;
* `Value.Writable`, `Arguments.Writable`, `Call.Writable` : values that can be written, and calls
  that end with one;
* `FunctionTable.writable_builtins`, `tabulatedPlurals_of_writable` : the built-in functions and the
  tables of plural rules get along with such values.
-/
import Fluent.Format.NumberFunction
import Fluent.Format.Resolve
import Fluent.Locale.Plural
import Fluent.Proofs.Number.DecimalText
import Fluent.Proofs.Number.NumberTokens
import Fluent.Proofs.Tree.Rules

namespace Fluent

/-! ## Digits behind the point -/

namespace NumberValue

/-- Characters before the point add no digits behind it. -/
theorem naturalDigits_append {front : List Char} (h : '.' ∉ front) (rest : List Char) :
    naturalDigits (front ++ rest) = naturalDigits rest := by
  have hfront : ∀ ch ∈ front, (ch != '.') = true := by
    intro ch hch
    refine bne_iff_ne.2 ?_
    rintro rfl
    exact h hch
  rw [naturalDigits, naturalDigits, List.dropWhile_append_of_pos hfront]

/-- Without a point no digits stand behind it. -/
theorem naturalDigits_of_not_mem {text : List Char} (h : '.' ∉ text) : naturalDigits text = 0 := by
  rw [← List.append_nil text, naturalDigits_append h]
  rfl

/-- No digit is a point. -/
theorem point_not_mem_of_isDigit {run : List Char} (h : ∀ ch ∈ run, ch.isDigit = true) :
    '.' ∉ run :=
  fun hmem => absurd (h '.' hmem) (by decide)

/-- A run of digits with a point in it has as many digits behind the point as asked for. -/
theorem naturalDigits_pointed (places : Nat) {digits : List Char}
    (hdigits : ∀ ch ∈ digits, ch.isDigit = true) :
    naturalDigits (pointed places digits) = places := by
  obtain ⟨whole, fraction, -, hall, hlength, -, heq⟩ := pointed_eq places hdigits
  have hwhole : '.' ∉ whole :=
    point_not_mem_of_isDigit fun ch hch => hall ch (List.mem_append_left _ hch)
  rw [heq]
  split
  · rename_i hzero
    rw [naturalDigits_of_not_mem hwhole, hzero]
  · rw [naturalDigits_append hwhole]
    exact hlength

/-- A number on a grid has as many digits behind the point as the grid has places. -/
theorem naturalDigits_scaled (s : Scaled) : naturalDigits s.text = (-s.exponent).toNat := by
  unfold Scaled.text
  split
  · have hdigits : ∀ ch ∈ natDigits s.digits ++ List.replicate s.exponent.toNat '0',
        ch.isDigit = true := by
      intro ch hch
      rcases List.mem_append.1 hch with hch | hch
      · exact isDigit_natDigits hch
      · rw [List.eq_of_mem_replicate hch]
        rfl
    rw [naturalDigits_of_not_mem (point_not_mem_of_isDigit hdigits)]
    omega
  · exact naturalDigits_pointed _ fun ch hch => isDigit_natDigits hch

end NumberValue

namespace Dyadic

variable {d : Dyadic} {s : Scaled}

/-- A candidate found at an exponent of ten has this exponent. -/
theorem exponent_of_onGrid? {exponent : Int} (h : d.onGrid? exponent = some s) :
    s.exponent = exponent := by
  simp only [onGrid?] at h
  split at h
  · rw [← Option.some.inj h]
  · split at h
    · rw [← Option.some.inj h]
    · cases h

/-- The grids that are tried for the shortest digits are the twenty coarsest. -/
theorem exponent_of_shortest? (h : d.shortest? = some s) : d.topExponent - 19 ≤ s.exponent := by
  obtain ⟨n, hn, hgrid⟩ := List.exists_of_findSome?_eq_some h
  have hlt : n < 20 := List.mem_range.1 hn
  rw [exponent_of_onGrid? hgrid]
  omega

/-- The power of ten that exceeds a float is no smaller than this one. -/
theorem topExponent_ge (h : -1074 ≤ d.exponent) : -323 ≤ d.topExponent := by
  unfold topExponent
  omega

end Dyadic

/-- The exponent of a finite float is at least that of the smallest one. -/
theorem FloatParts.exponent_ge {x : Float} {negative : Bool} {size : Dyadic}
    (h : FloatParts.ofFloat x = .finite negative size) : -1074 ≤ size.exponent := by
  simp only [ofFloat] at h
  split at h
  · split at h <;> cases h
  · split at h
    · cases h
      exact Int.le_refl _
    · cases h
      show -1074 ≤ ((x.toBits.toNat >>> 52 % (1 <<< 11) : Nat) : Int) - 1075
      omega

namespace NumberValue

/-- Numbers that are not finite are written without a point. -/
theorem naturalDigits_nonFinite (parts : FloatParts) : naturalDigits (nonFiniteText parts) = 0 := by
  cases parts with
  | nan => decide
  | infinite negative => cases negative <;> decide
  | finite => rfl

/-- The shortest text of a float has few digits behind the point. -/
theorem naturalDigits_floatText_le (x : Float) : naturalDigits (floatText x) ≤ 342 := by
  have hsign : ∀ negative : Bool, '.' ∉ (if negative then ['-'] else []) := by decide
  unfold floatText
  split
  · rename_i negative size hparts
    rw [naturalDigits_append (hsign negative)]
    split
    · decide
    · cases hs : size.shortest? with
      | none => exact Nat.zero_le _
      | some s =>
        show naturalDigits s.text ≤ 342
        have htop := Dyadic.topExponent_ge (FloatParts.exponent_ge hparts)
        have hexponent := Dyadic.exponent_of_shortest? hs
        rw [naturalDigits_scaled]
        omega
  · rw [naturalDigits_nonFinite]
    exact Nat.zero_le _

/-! ## Numbers -/

/-- Few digits are kept within a bound just if no more are asked for. -/
theorem fractionDigits_le_iff {options : NumberOptions} {natural bound : Nat}
    (h : natural ≤ bound) : fractionDigits options natural ≤ bound ↔
      ∀ digits, options.minimumFractionDigits = some digits → digits ≤ bound := by
  have hcapped : (options.maximumFractionDigits.map (min natural)).getD natural ≤ bound := by
    cases options.maximumFractionDigits with
    | none => exact h
    | some most => exact Nat.le_trans (Nat.min_le_left ..) h
  unfold fractionDigits
  cases options.minimumFractionDigits with
  | none => simpa using hcapped
  | some least => simpa using fun _ => hcapped

/-- The number asks for no more digits behind the point than can be written. -/
def Writable (n : NumberValue) : Prop :=
  ∀ digits, n.options.minimumFractionDigits = some digits → digits ≤ maxFormatDigits

/-- Just those numbers cannot be written that are finite and ask for more digits. -/
theorem text?_eq_none_iff (n : NumberValue) :
    n.text? = none ↔ isFinite n.value = true ∧ ¬n.Writable := by
  have hnatural : naturalDigits (floatText n.value) ≤ maxFormatDigits :=
    Nat.le_trans (naturalDigits_floatText_le n.value) (by decide)
  have hdigits : fractionDigits n.options (naturalDigits (floatText n.value)) ≤ maxFormatDigits ↔
      n.Writable := fractionDigits_le_iff hnatural
  unfold text?
  dsimp only
  split
  · rename_i hplain
    rcases Bool.or_eq_true_iff.1 hplain with hfinite | hnone
    · simp_all
    · have hleast : n.options.minimumFractionDigits = none := by simp_all
      simp [Writable, hleast]
  · rename_i hfinite
    rw [← hdigits]
    split <;> simp_all

/-- A number that asks for no more digits has a text. -/
theorem Writable.exists_text {n : NumberValue} (h : n.Writable) : ∃ text, n.text? = some text :=
  Option.ne_none_iff_exists'.1 fun hnone => ((text?_eq_none_iff n).1 hnone).2 h

end NumberValue

/-- No more digits are written behind the point of a checked literal than can be written. -/
theorem NumberLiteral.Checked.writable {n : NumberLiteral} (h : n.Checked) :
    (NumberValue.ofLiteral n).Writable := by
  obtain ⟨token, htext⟩ := exists_token_of_ofRaw h
  have hplaces : token.places.length ≤ 28 := ((exists_ofRaw_iff htext).1 ⟨n, h⟩).2
  have hprecision : n.precision = token.places.length := (denotes_of_ofRaw htext h).precision
  intro digits hdigits
  simp only [NumberValue.ofLiteral] at hdigits
  split at hdigits
  · obtain rfl := Option.some.inj hdigits
    exact Nat.le_trans (hprecision ▸ hplaces) (by decide)
  · cases hdigits

/-- The tables have a category for every number that can be written. -/
theorem tabulatedPlurals_of_writable {n : NumberValue} (h : n.Writable) (locale : Locale) :
    ∃ category, tabulatedPlurals n locale = some category := by
  obtain ⟨text, htext⟩ := h.exists_text
  unfold tabulatedPlurals
  split
  · exact ⟨_, rfl⟩
  · rw [htext]
    exact ⟨_, rfl⟩

/-! ## Values -/

/-- The value can be written. -/
def Value.Writable : Value → Prop
  | .number n => n.Writable
  | .string _ | .none => True

/-- A value that can be written has a text. -/
theorem Value.Writable.exists_text {v : Value} (h : v.Writable) : ∃ text, v.text? = some text := by
  cases v with
  | string text => exact ⟨_, rfl⟩
  | number n => exact NumberValue.Writable.exists_text h
  | none => exact ⟨_, rfl⟩

/-- The value of a literal that passes its checks can be written. -/
theorem Literal.Checked.writable {l : Literal} (h : l.Checked) : (Value.ofLiteral l).Writable := by
  cases l with
  | string s => trivial
  | number n => exact NumberLiteral.Checked.writable h

/-- All values can be written. -/
def Arguments.Writable (args : Arguments) : Prop :=
  ∀ name v, args.find? name = some v → v.Writable

/-- The empty list of arguments is writable. -/
theorem Arguments.writable_empty : Arguments.Writable .empty := by
  rintro name v ⟨⟩

/-- The values of checked literals can be written. -/
theorem writable_namedArguments {named : List NamedArgument} (h : ∀ a ∈ named, a.value.Checked) :
    (namedArguments named).Writable :=
  SortedMap.forall_ofList (List.forall_mem_map.2 fun a ha => (h a ha).writable)

/-- What an expression resolves to can be written. -/
def Resolved.Writable : Resolved → Prop
  | .value v => v.Writable
  | .placeholder _ => True

/-! ## Calls -/

/-- The call ends with a value that can be written, if with any. -/
def CallResult.Writable : CallResult → Prop
  | .value v => v.Writable
  | .failure _ | .brokenOff => True

/-- Whatever texts the call gets, it ends with a value that can be written, if with any. -/
def Call.Writable : Call → Prop
  | .value v => v.Writable
  | .failure _ | .breakOff => True
  | .format _ _ resume => ∀ formatted, (resume formatted).Writable

/-- What a writable call answers in the end can be written, whatever texts it is given. -/
theorem Call.Writable.run {call : Call} (h : call.Writable)
    (ask : Nat → Request → Thread → Formatted × Thread) (thread : Thread) :
    (call.run ask thread).1.Writable := by
  -- the induction is on the call: each text that it asks for is followed by the rest of it
  induction call generalizing thread with
  | value v => exact h
  | failure error => trivial
  | breakOff => trivial
  | format place request resume ih => exact ih _ (h _) _

namespace NumberFunction

/-- A number taken from a writable value can be written. -/
theorem writable_number {v : Value} {n : NumberValue} (h : v.Writable) (hn : number v = .ok n) :
    n.Writable := by
  cases v with
  | number m =>
    cases hn
    exact h
  | string text =>
    simp only [number] at hn
    split at hn
    · cases hn
      rintro digits ⟨⟩
    · cases hn
  | none => cases hn

/-- A number of digits that is accepted can be written. -/
theorem digitCount_le {name : String} {v : Value} {digits : Nat}
    (h : digitCount name v = .ok digits) : digits ≤ maxFormatDigits := by
  have hsome : digitCount? v = some digits := by
    unfold digitCount at h
    split at h
    · rename_i count hcount
      rw [hcount, Except.ok.inj h]
    · cases h
  cases v with
  | number n =>
    have hmem := List.mem_of_find?_eq_some hsome
    have hlt := List.mem_range.1 hmem
    exact Nat.le_trans (Nat.le_of_lt_succ hlt) (by decide)
  | string text => cases hsome
  | none => cases hsome

/-- Giving a writable number its formatting options, checked as they are, keeps it writable. -/
theorem writable_withOptions {number : NumberValue} (options : List (String × Value))
    (h : number.Writable) : (withOptions number options).Writable := by
  fun_induction withOptions number options with
  | case1 => exact h
  | case2 number value rest digits hdigits ih =>
    refine ih ?_
    rintro _ ⟨⟩
    exact digitCount_le hdigits
  | case4 number value rest hname digits hdigits ih => exact ih h
  | case7 number value rest h1 h2 text htext kind hkind ih => exact ih h
  | case9 number name value rest h1 h2 h3 ih => exact ih h
  | case3 | case5 | case6 | case8 => trivial

end NumberFunction

/-- Setting options makes no number that cannot be written. -/
theorem writable_numberFunction {positional : List Value} (h : ∀ v ∈ positional, v.Writable)
    (named : Arguments) : (numberFunction positional named).Writable := by
  unfold numberFunction
  split
  · rename_i value
    split
    · rename_i number hnumber
      exact NumberFunction.writable_withOptions _
        (NumberFunction.writable_number (h value List.mem_cons_self) hnumber)
    · trivial
  · trivial

namespace FunctionTable

/-- Given values that can be written, the functions make no others. -/
def Writable (table : FunctionTable) : Prop :=
  ∀ name f, table.find? name = some f → ∀ positional named, (∀ v ∈ positional, v.Writable) →
    Arguments.Writable named → (f positional named).Writable

/-- A table without functions answers nothing that cannot be written. -/
theorem writable_empty : empty.Writable := by
  rintro name f ⟨⟩

/-- A table stays writable when a function is added that answers so. -/
theorem Writable.register {table : FunctionTable} (h : table.Writable) (name : String)
    {f : Function} (hf : ∀ positional named, (∀ v ∈ positional, v.Writable) →
      Arguments.Writable named → (f positional named).Writable) :
    (table.register name f).Writable :=
  forall_register h name hf

/-- The built-in functions make no numbers that cannot be written. -/
theorem writable_builtins : builtins.Writable :=
  writable_empty.register "NUMBER" fun _ named hpositional _ =>
    writable_numberFunction hpositional named

end FunctionTable

end Fluent
