/-
# Reading back the text of a decimal

The text of a decimal is read as that decimal, with just its digits: nothing is rounded, whatever
the scale is.

* `digitsValue_natDigits` : the digits of a number denote it;
* `RawDecimal.ofDigits?_append` : a run of digits that fits is read as a whole;
* `RawDecimal.read?_text` : the text of a decimal is read back.
-/
import Fluent.Number.DecimalReader

namespace Fluent

/-! ## Digits -/

/-- The digits of a number denote it. -/
theorem digitsValue_natDigits (n : Nat) : digitsValue (natDigits n) = n := by
  rw [natDigits, Nat.toList_repr]
  exact Nat.ofDigitChars_toDigits (by decide) (by decide)

/-- A natural number is written with digits only. -/
theorem isDigit_natDigits {n : Nat} {ch : Char} (h : ch ∈ natDigits n) : ch.isDigit = true := by
  rw [natDigits, Nat.toList_repr] at h
  exact Nat.isDigit_of_mem_toDigits (by decide) (by decide) h

/-- Zeros in front count for nothing. -/
theorem digitsValue_zeros (n : Nat) (digits : List Char) :
    digitsValue (List.replicate n '0' ++ digits) = digitsValue digits := by
  have hzeros : digitsValue (List.replicate n '0') = 0 := by
    induction n with
    | zero => rfl
    | succ n ih => exact ih
  rw [digitsValue_append, hzeros, Nat.zero_mul, Nat.zero_add]

/-- A run of digits, cut where the point is placed: the digits behind it are as many as asked for,
and a digit stands before it. -/
theorem pointed_eq (places : Nat) {digits : List Char}
    (hdigits : ∀ ch ∈ digits, ch.isDigit = true) :
    ∃ whole fraction, whole ≠ [] ∧ (∀ ch ∈ whole ++ fraction, ch.isDigit = true) ∧
      fraction.length = places ∧ digitsValue (whole ++ fraction) = digitsValue digits ∧
      pointed places digits = if places = 0 then whole else whole ++ '.' :: fraction := by
  refine ⟨_, _, ?_, ?_, ?_, ?_, rfl⟩
  · refine List.ne_nil_of_length_pos ?_
    rw [List.length_take, List.length_append, List.length_replicate]
    omega
  · rw [List.take_append_drop]
    intro ch hch
    rcases List.mem_append.1 hch with hch | hch
    · rw [List.eq_of_mem_replicate hch]
      rfl
    · exact hdigits ch hch
  · rw [List.length_drop, List.length_append, List.length_replicate]
    omega
  · rw [List.take_append_drop, digitsValue_zeros]

namespace RawDecimal

/-! ## Runs of digits -/

/-- The number with further digits behind its own. -/
def extend (behindPoint : Bool) (d : RawDecimal) (digits : List Char) : RawDecimal :=
  { d with
    mantissa := d.mantissa * Nat.pow 10 digits.length + digitsValue digits
    scale := d.scale + if behindPoint then digits.length else 0 }

/-- A run of digits is read as a whole if it fits, in front of whatever follows. -/
theorem ofDigits?_append {behindPoint hasDigit : Bool} {d : RawDecimal} {digits rest : List Char}
    (hdigits : ∀ ch ∈ digits, ch.isDigit = true) (hne : digits ≠ [] ∨ hasDigit = true)
    (hmantissa : (d.extend behindPoint digits).mantissa < 1 <<< 96)
    (hscale : d.scale < 28 ∧ behindPoint = false ∨ d.scale + digits.length ≤ 28) :
    ofDigits? behindPoint hasDigit d (digits ++ rest) =
      ofDigits? behindPoint true (d.extend behindPoint digits) rest := by
  -- the induction is on the digits; after each the number still fits, with fewer digits to come
  induction digits generalizing d hasDigit with
  | nil =>
    obtain rfl : hasDigit = true := hne.resolve_left fun h => h rfl
    simp [extend, digitsValue]
  | cons ch digits ih =>
    have hch := hdigits ch List.mem_cons_self
    have htail : ∀ x ∈ digits, x.isDigit = true :=
      fun x hx => hdigits x (List.mem_cons_of_mem _ hx)
    let next : RawDecimal :=
      { d with mantissa := 10 * d.mantissa + digitValue ch, scale := d.scale + behindPoint.toNat }
    have hvalue : digitsValue (ch :: digits) =
        digitValue ch * Nat.pow 10 digits.length + digitsValue digits := by
      have hsplit := digitsValue_append [ch] digits
      simpa [digitsValue] using hsplit
    have hextend : next.extend behindPoint digits = d.extend behindPoint (ch :: digits) := by
      have hpow : Nat.pow 10 (digits.length + 1) = 10 * Nat.pow 10 digits.length :=
        Nat.mul_comm _ _
      have hscale' : d.scale + behindPoint.toNat + (if behindPoint then digits.length else 0) =
          d.scale + if behindPoint then digits.length + 1 else 0 := by
        cases behindPoint <;> simp
        omega
      simp only [extend, next, hvalue, List.length_cons, hpow, hscale']
      congr 1
      rw [Nat.add_mul, ← Nat.add_assoc, Nat.mul_comm 10 d.mantissa, Nat.mul_assoc]
    have hfits : next.mantissa < 1 <<< 96 := by
      have hle : next.mantissa ≤ (next.extend behindPoint digits).mantissa :=
        Nat.le_trans (Nat.le_mul_of_pos_right _ (Nat.pow_pos (by decide))) (Nat.le_add_right _ _)
      exact Nat.lt_of_le_of_lt hle (hextend ▸ hmantissa)
    have hplaces : d.scale ≠ 28 := by
      rw [List.length_cons] at hscale
      omega
    have hnext : (1 <<< 96 ≤ next.mantissa || d.scale = 28) = false := by
      rw [Bool.or_eq_false_iff]
      exact ⟨decide_eq_false (Nat.not_le.2 hfits), decide_eq_false hplaces⟩
    rw [List.cons_append, ofDigits?, if_pos hch]
    dsimp only
    rw [if_neg (by simpa [next] using hnext)]
    show ofDigits? behindPoint true next (digits ++ rest) = _
    rw [← hextend]
    refine ih htail (.inr rfl) (hextend ▸ hmantissa) ?_
    rw [List.length_cons] at hscale
    cases behindPoint with
    | false =>
      refine hscale.imp (fun h => ⟨h.1, rfl⟩) fun h => ?_
      show d.scale + 0 + digits.length ≤ 28
      omega
    | true =>
      refine .inr ?_
      show d.scale + 1 + digits.length ≤ 28
      have := hscale.resolve_left (by simp)
      omega

/-! ## Whole texts -/

/-- The text of a decimal without its sign is read back. -/
theorem ofDigits?_pointed {mantissa scale : Nat} (hmantissa : mantissa < 1 <<< 96)
    (hscale : scale ≤ 28) :
    ofDigits? false false ⟨false, 0, 0⟩ (pointed scale (natDigits mantissa)) =
      some ⟨false, mantissa, scale⟩ := by
  obtain ⟨whole, fraction, hne, hdigits, hlength, hvalue, htext⟩ :=
    pointed_eq scale fun ch hch => isDigit_natDigits (n := mantissa) hch
  rw [digitsValue_natDigits] at hvalue
  have hwhole : ∀ ch ∈ whole, ch.isDigit = true :=
    fun ch hch => hdigits ch (List.mem_append_left _ hch)
  have hsum : digitsValue whole * Nat.pow 10 fraction.length + digitsValue fraction = mantissa := by
    rw [← digitsValue_append, hvalue]
  have hfirst : digitsValue whole ≤ mantissa := by
    rw [← hsum]
    exact Nat.le_trans (Nat.le_mul_of_pos_right _ (Nat.pow_pos (by decide))) (Nat.le_add_right _ _)
  -- the digits before the point are read first, and fit as they are no more than all digits
  have hextend : extend false ⟨false, 0, 0⟩ whole = ⟨false, digitsValue whole, 0⟩ := by
    simp [extend]
  have hread : ∀ rest, ofDigits? false false ⟨false, 0, 0⟩ (whole ++ rest) =
      ofDigits? false true ⟨false, digitsValue whole, 0⟩ rest := by
    intro rest
    rw [← hextend]
    refine ofDigits?_append hwhole (.inl hne) ?_ (.inl ⟨by decide, rfl⟩)
    rw [hextend]
    exact Nat.lt_of_le_of_lt hfirst hmantissa
  rw [htext]
  by_cases hplaces : scale = 0
  · have hnone : fraction = [] := List.length_eq_zero_iff.1 (hlength.trans hplaces)
    rw [hnone, List.append_nil] at hvalue
    have hend := hread []
    rw [List.append_nil] at hend
    rw [if_pos hplaces, hend, hvalue, hplaces]
    rfl
  · -- the point is passed, and the digits behind it are read like those before it
    have hbehind : extend true ⟨false, digitsValue whole, 0⟩ fraction =
        ⟨false, mantissa, scale⟩ := by
      simp only [extend]
      rw [hsum, if_pos trivial, hlength, Nat.zero_add]
    rw [if_neg hplaces, hread, ofDigits?, if_neg (by decide), if_pos (by decide)]
    have hlast : ofDigits? true true ⟨false, digitsValue whole, 0⟩ (fraction ++ []) =
        ofDigits? true true (extend true ⟨false, digitsValue whole, 0⟩ fraction) [] := by
      refine ofDigits?_append (fun ch hch => hdigits ch (List.mem_append_right _ hch)) (.inr rfl)
        (hbehind ▸ hmantissa) (.inr ?_)
      show 0 + fraction.length ≤ 28
      omega
    rw [List.append_nil, hbehind] at hlast
    exact hlast

/-- Digits carry no sign. -/
theorem splitSign_pointed (places n : Nat) :
    splitSign (pointed places (natDigits n)) = (false, pointed places (natDigits n)) := by
  obtain ⟨whole, fraction, hne, hdigits, -, -, htext⟩ :=
    pointed_eq places fun ch hch => isDigit_natDigits (n := n) hch
  obtain ⟨ch, rest, hcons⟩ : ∃ ch rest, pointed places (natDigits n) = ch :: rest ∧
      ch.isDigit = true := by
    obtain ⟨ch, rest, rfl⟩ := List.exists_cons_of_ne_nil hne
    have hch := hdigits ch List.mem_cons_self
    rw [htext]
    split
    · exact ⟨ch, rest, rfl, hch⟩
    · exact ⟨ch, rest ++ '.' :: fraction, rfl, hch⟩
  rw [hcons.1]
  unfold splitSign
  split
  · rename_i heq
    rw [(List.cons.inj heq).1] at hcons
    exact absurd hcons.2 (by decide)
  · rename_i heq
    rw [(List.cons.inj heq).1] at hcons
    exact absurd hcons.2 (by decide)
  · rfl

/-- **The text of a decimal is read back** as the same digits with the same sign. -/
theorem read?_text (value : Decimal) : read? value.text = some (ofDecimal value) := by
  have hsign : splitSign value.text =
      (value.negative, pointed value.scale (natDigits value.mantissa)) := by
    rw [Decimal.text]
    cases value.negative with
    | true => rfl
    | false => exact splitSign_pointed _ _
  have hzero : (value.negative && value.mantissa != 0) = value.negative :=
    (denotes_ofDecimal value).1
  have hplain : ofPlain? value.text = some (ofDecimal value) := by
    rw [ofPlain?, hsign]
    dsimp only
    rw [ofDigits?_pointed value.mantissa_lt value.scale_le, Option.map_some, hzero]
    rfl
  rw [read?, hplain]
  rfl

end RawDecimal

end Fluent
