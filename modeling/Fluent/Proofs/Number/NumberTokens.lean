/-
# Numbers are read whole and exactly

A number is written as a token: a sign, digits, and maybe a point with further digits.  Scanning a
text for a number, splitting a text into its parts, and decoding a literal all accept the same
tokens, and give the rational number that the token denotes.

* `NumberToken.splitNumber?_text` : a token is split into its parts;
* `NumberToken.exists_ofDigits_iff`, `NumberToken.toRat_of_ofDigits` : the digits of a token make a
  decimal just if they fit, and its value is that of the token;
* `number_eq_ok_iff_of_starts` : where a text starts with a token, the token is scanned;
* `numbers_read_exactly` : which texts are numbers, and which numbers they are.
-/
import Mathlib.Data.Rat.Defs
import Mathlib.Tactic.Ring
import Mathlib.Tactic.FieldSimp
import Fluent.Proofs.Grammar.Layouts
import Fluent.Proofs.Json.Fields
import Fluent.Tree.Decode

namespace Fluent

open Grammar

/-! ## Values -/

/-- The rational number that a decimal is. -/
def Decimal.toRat (d : Decimal) : ℚ :=
  (if d.negative then -1 else 1) * d.mantissa / 10 ^ d.scale

/-- A number as it is written: a sign, digits, and maybe digits behind a point. -/
structure NumberToken where
  negative : Bool
  whole : List Char
  fraction : Option (List Char)
  isDigits_whole : IsDigits whole
  isDigits_fraction : ∀ places ∈ fraction, IsDigits places

namespace NumberToken

/-- The digits behind the point. -/
def places (token : NumberToken) : List Char :=
  token.fraction.getD []

/-- The point and the digits behind it. -/
def pointText (token : NumberToken) : List Char :=
  match token.fraction with
  | none => []
  | some places => '.' :: places

/-- The token as it stands in a text. -/
def text (token : NumberToken) : List Char :=
  (if token.negative then ['-'] else []) ++ (token.whole ++ token.pointText)

/-- The rational number that the token denotes. -/
def value (token : NumberToken) : ℚ :=
  (if token.negative then -1 else 1) *
    (digitsValue token.whole + digitsValue token.places / 10 ^ token.places.length)

/-- All digits together are below 2^96, and at most 28 stand behind the point. -/
def Fits (token : NumberToken) : Prop :=
  digitsValue (token.whole ++ token.places) < 2 ^ 96 ∧ token.places.length ≤ 28

/-- The text starts with the token, and what follows does not go on with it. -/
def Starts (token : NumberToken) (text : List Char) : Prop :=
  ∃ rest, text = token.text ++ rest ∧ Stops Char.isDigit rest ∧
    (token.fraction = none → rest.head? ≠ some '.')

/-- The literal is written as the token, and has its value and as many digits behind the point. -/
structure Denotes (token : NumberToken) (n : NumberLiteral) : Prop where
  raw : n.raw.toList = token.text
  value : n.value.toRat = token.value
  precision : n.precision = token.places.length

variable {token : NumberToken}

/-! ## Tokens and numerals -/

/-- Every token is a numeral. -/
theorem isNumeral_text (token : NumberToken) : IsNumeral token.text := by
  refine ⟨if token.negative then ['-'] else [], token.whole, ?_, token.isDigits_whole, ?_⟩
  · cases token.negative
    · exact .inl rfl
    · exact .inr rfl
  · cases hf : token.fraction with
    | none => exact .inl (by simp [text, pointText, hf])
    | some digits =>
      exact .inr ⟨digits, token.isDigits_fraction digits hf, by simp [text, pointText, hf]⟩

/-- Every numeral is the text of a token. -/
theorem exists_of_isNumeral {raw : List Char} (h : IsNumeral raw) :
    ∃ token : NumberToken, token.text = raw := by
  obtain ⟨sign, whole, hsign, hwhole, hraw⟩ := h
  obtain ⟨negative, rfl⟩ : ∃ negative : Bool, (if negative then ['-'] else []) = sign := by
    rcases hsign with rfl | rfl
    · exact ⟨false, rfl⟩
    · exact ⟨true, rfl⟩
  rcases hraw with rfl | ⟨digits, hdigits, rfl⟩
  · exact ⟨⟨negative, whole, none, hwhole, nofun⟩, by simp [text, pointText]⟩
  · refine ⟨⟨negative, whole, some digits, hwhole, ?_⟩, by simp [text, pointText]⟩
    rintro _ ⟨⟩
    exact hdigits

/-- A point stands in the text of a token just if digits stand behind it. -/
theorem point_mem_text : '.' ∈ token.text ↔ token.fraction ≠ none := by
  have hwhole := token.isDigits_whole.point_not_mem
  cases hf : token.fraction with
  | none => cases hn : token.negative <;> simp [text, pointText, hf, hn, hwhole]
  | some digits => simp [text, pointText, hf]

/-- What does not go on with a token does not go on with its text. -/
theorem numberEnds_text {rest : List Char} :
    NumberEnds token.text rest ↔
      Stops Char.isDigit rest ∧ (token.fraction = none → rest.head? ≠ some '.') := by
  rw [NumberEnds, point_mem_text, not_not]

/-! ## The parts of a token -/

/-- The digits of a token do not start with a sign. -/
theorem head?_whole_ne (token : NumberToken) (rest : List Char) :
    (token.whole ++ rest).head? ≠ some '-' := by
  obtain ⟨hne, hall⟩ := token.isDigits_whole
  obtain ⟨ch, tail, hcons⟩ := List.exists_cons_of_ne_nil hne
  have hch : ch.isDigit = true := hall ch (by simp [hcons])
  rw [hcons]
  rintro ⟨⟩
  exact absurd hch (by decide)

/-- No digit of a token is a point. -/
theorem ne_point_of_mem_whole {ch : Char} (h : ch ∈ token.whole) : (ch != '.') = true := by
  refine bne_iff_ne.2 ?_
  rintro rfl
  exact token.isDigits_whole.point_not_mem h

/-- The text from the point of a token on starts with the point, or is empty. -/
theorem stops_pointText (token : NumberToken) : Stops (· != '.') token.pointText := by
  unfold pointText
  cases token.fraction with
  | none => exact stops_nil _
  | some digits => exact stops_cons.2 rfl

/-- The test for digits accepts exactly the runs of them. -/
theorem allDigits_iff {run : List Char} : allDigits run = true ↔ IsDigits run := by
  simp [allDigits, IsDigits]

/-- A token is split into its parts. -/
theorem splitNumber?_text (token : NumberToken) :
    splitNumber? token.text = some (token.negative, token.whole, token.places) := by
  have hsign : (token.text.head? == some '-') = token.negative := by
    cases hn : token.negative with
    | true => simp [text, hn]
    | false => simpa [text, hn] using token.head?_whole_ne token.pointText
  have hunsigned : (if token.negative then token.text.tail else token.text) =
      token.whole ++ token.pointText := by
    cases hn : token.negative <;> simp [text, hn]
  have hwhole : (token.whole ++ token.pointText).takeWhile (· != '.') = token.whole := by
    rw [List.takeWhile_append_of_pos fun _ h => ne_point_of_mem_whole h,
      takeWhile_of_stops token.stops_pointText, List.append_nil]
  have hpoint : (token.whole ++ token.pointText).dropWhile (· != '.') = token.pointText := by
    rw [List.dropWhile_append_of_pos fun _ h => ne_point_of_mem_whole h,
      dropWhile_of_stops token.stops_pointText]
  have hdigits := allDigits_iff.2 token.isDigits_whole
  unfold splitNumber?
  dsimp only
  rw [hsign, hunsigned, hwhole, hpoint]
  cases hf : token.fraction with
  | none => simp [pointText, places, hf, hdigits]
  | some digits =>
    have hplaces := allDigits_iff.2 (token.isDigits_fraction digits hf)
    simp [pointText, places, hf, hdigits, hplaces]

/-! ## The value of a token -/

/-- Digits take a byte each. -/
theorem utf8Length_digits {run : List Char} (h : ∀ ch ∈ run, ch.isDigit = true) :
    utf8Length run = run.length := by
  refine utf8Length_eq_length_iff.2 fun ch hch => Char.utf8Size_eq_one_iff.2 ?_
  have hdigit := h ch hch
  simp only [Char.isDigit, Bool.and_eq_true, decide_eq_true_eq] at hdigit
  exact UInt32.le_trans hdigit.2 (by decide)

/-- The digits behind the first point of a token are those of its fraction. -/
theorem precision_of_raw {n : NumberLiteral} (h : n.raw.toList = token.text) :
    n.precision = token.places.length := by
  have hsign : ∀ ch ∈ (if token.negative then ['-'] else []), (ch != '.') = true := by
    cases token.negative <;> simp
  have hpoint : token.text.dropWhile (· != '.') = token.pointText := by
    rw [text, List.dropWhile_append_of_pos hsign,
      List.dropWhile_append_of_pos fun _ h => ne_point_of_mem_whole h,
      dropWhile_of_stops token.stops_pointText]
  rw [NumberLiteral.precision, h, hpoint]
  cases hf : token.fraction with
  | none => simp [pointText, places, hf]
  | some digits =>
    simpa [pointText, places, hf] using utf8Length_digits (token.isDigits_fraction digits hf).2

/-- The digits of a token, read as one number. -/
theorem digitsValue_all (token : NumberToken) :
    digitsValue (token.whole ++ token.places) =
      digitsValue token.whole * 10 ^ token.places.length + digitsValue token.places :=
  digitsValue_append _ _

/-- The decimal made of the digits of a token has its value. -/
theorem toRat_of_ofDigits {d : Decimal}
    (h : Decimal.ofDigits token.negative token.whole token.places = .ok d) :
    d.toRat = token.value := by
  obtain ⟨-, hmantissa, hscale, hnegative⟩ := Decimal.ofDigits_eq_ok_iff.1 h
  have hpow : (10 : ℚ) ^ token.places.length ≠ 0 := pow_ne_zero _ (by norm_num)
  -- a zero has no sign, and needs none
  have hsign : (if d.negative then (-1 : ℚ) else 1) * d.mantissa =
      (if token.negative then -1 else 1) * d.mantissa := by
    by_cases hzero : d.mantissa = 0
    · simp [hzero]
    · rw [hnegative, ← hmantissa]
      simp [hzero]
  rw [Decimal.toRat, hsign, hscale, hmantissa, token.digitsValue_all, value]
  push_cast
  field_simp

/-- The digits of a token make a decimal just if they fit. -/
theorem exists_ofDigits_iff (token : NumberToken) :
    (∃ d, Decimal.ofDigits token.negative token.whole token.places = .ok d) ↔ token.Fits := by
  have hbound : (1 <<< 96 : Nat) = 2 ^ 96 := by decide
  constructor
  · rintro ⟨d, hd⟩
    obtain ⟨-, hmantissa, hscale, -⟩ := Decimal.ofDigits_eq_ok_iff.1 hd
    exact ⟨hmantissa ▸ hbound ▸ d.mantissa_lt, hscale ▸ d.scale_le⟩
  · rintro ⟨hdigits, hplaces⟩
    have hwhole : digitsValue token.whole ≤ digitsValue (token.whole ++ token.places) := by
      rw [token.digitsValue_all]
      exact Nat.le_add_right_of_le (Nat.le_mul_of_pos_right _ (Nat.pow_pos (by decide)))
    obtain ⟨d, hd⟩ : ∃ d, Decimal.ofParts? token.negative
        (digitsValue (token.whole ++ token.places)) token.places.length = some d := by
      rw [Decimal.ofParts?, dif_pos ⟨hbound ▸ hdigits, hplaces⟩]
      exact ⟨_, rfl⟩
    refine ⟨d, Decimal.ofDigits_eq_ok_iff.2 ⟨?_, Decimal.ofParts?_eq_some_iff.1 hd⟩⟩
    rw [hbound]
    exact Nat.lt_of_le_of_lt hwhole hdigits

end NumberToken

/-! ## Literals -/

variable {token : NumberToken} {raw : String} {n : NumberLiteral}

/-- The literal of a token is made of the decimal of its digits. -/
theorem NumberLiteral.ofRaw_eq_ok_iff (htext : token.text = raw.toList) :
    NumberLiteral.ofRaw raw = .ok n ↔
      n.raw = raw ∧ Decimal.ofDigits token.negative token.whole token.places = .ok n.value := by
  unfold NumberLiteral.ofRaw
  rw [← htext, token.splitNumber?_text]
  dsimp only
  constructor
  · intro h
    split at h
    · rename_i value hvalue
      obtain rfl := Except.ok.inj h
      exact ⟨rfl, hvalue⟩
    · cases h
  · rintro ⟨rfl, hvalue⟩
    rw [hvalue]

/-- Every literal is written as a token. -/
theorem exists_token_of_ofRaw (h : NumberLiteral.ofRaw raw = .ok n) :
    ∃ token : NumberToken, token.text = raw.toList := by
  unfold NumberLiteral.ofRaw at h
  split at h
  · cases h
  · rename_i hsplit
    exact NumberToken.exists_of_isNumeral (isNumeral_of_splitNumber? hsplit)

/-- A token is a literal just if it fits. -/
theorem exists_ofRaw_iff (htext : token.text = raw.toList) :
    (∃ n, NumberLiteral.ofRaw raw = .ok n) ↔ token.Fits := by
  rw [← token.exists_ofDigits_iff]
  constructor
  · rintro ⟨n, hn⟩
    exact ⟨n.value, ((NumberLiteral.ofRaw_eq_ok_iff htext).1 hn).2⟩
  · rintro ⟨value, hvalue⟩
    exact ⟨⟨value, raw⟩, (NumberLiteral.ofRaw_eq_ok_iff htext).2 ⟨rfl, hvalue⟩⟩

/-- The literal is what its token denotes. -/
theorem denotes_of_ofRaw (htext : token.text = raw.toList) (h : NumberLiteral.ofRaw raw = .ok n) :
    token.Denotes n := by
  obtain ⟨rfl, hvalue⟩ := (NumberLiteral.ofRaw_eq_ok_iff htext).1 h
  exact ⟨htext.symm, NumberToken.toRat_of_ofDigits hvalue,
    NumberToken.precision_of_raw htext.symm⟩

/-- The object holds the text of a number and no value. -/
structure Json.IsRawNumber (j : Json) (raw : String) : Prop where
  raw : j.field? "raw" = some (.string raw)
  value : j.field? "value" = none ∨ j.field? "value" = some .null

/-- Such an object is decoded as the literal of its text. -/
theorem decode_of_isRawNumber {j : Json} (h : j.IsRawNumber raw) :
    NumberLiteral.decode j = .ofRule (NumberLiteral.ofRaw raw) := by
  cases j with
  | object fields =>
    have hraw : (Json.object fields).part? 1 "raw" = some (.string raw) := h.raw
    have hvalue : ∃ o : Option (Option RawDecimal), o.join = none ∧
        (Json.object fields).part 0 "value" (Json.decodeOption RawDecimal.decode) =
          ⟨0, (.ok o : TreeDecoding (Option (Option RawDecimal)))⟩ := by
      rcases h.value with hnone | hnull
      · exact ⟨none, rfl, Json.part_of_none hnone⟩
      · have hpart : (Json.object fields).part? 0 "value" = some .null := hnull
        exact ⟨some none, rfl, Json.part_of_some hpart⟩
    obtain ⟨o, ho, hvalue⟩ := hvalue
    unfold NumberLiteral.decode
    rw [Json.part_of_some hraw, hvalue]
    show Decoding.ofRule (NumberLiteral.ofRawWithValue raw o.join) = _
    rw [ho, NumberLiteral.ofRawWithValue]
    cases NumberLiteral.ofRaw raw <;> rfl
  | _ => cases h.raw

/-! ## Scanning -/

/-- Where a text starts with a token, scanning ends behind it. -/
theorem numberText_of_starts {c : Cursor} (h : token.Starts c.rest) :
    ∃ stop, c.Passes token.text stop ∧ numberText c = .ok (token.text, stop) := by
  obtain ⟨rest, hrest, hends⟩ := h
  have hp := Cursor.passes_of_rest hrest
  exact ⟨_, hp, numberText_eq_ok_iff.2
    ⟨token.isNumeral_text, hp, NumberToken.numberEnds_text.2 hends⟩⟩

/-- What is read is a token that the text starts with. -/
theorem exists_token_of_number {c stop : Cursor} (h : number c = .ok (n, stop)) :
    ∃ token : NumberToken, token.Starts c.rest := by
  obtain ⟨hn, hp, hends⟩ := number_eq_ok_iff.1 h
  obtain ⟨token, htext⟩ := NumberToken.exists_of_isNumeral hn.numeral
  rw [← htext] at hp hends
  exact ⟨token, stop.rest, hp.1, NumberToken.numberEnds_text.1 hends⟩

/-- Where a text starts with a token, the number is the literal of the token. -/
theorem number_eq_ok_iff_of_starts {c stop : Cursor} (h : token.Starts c.rest) :
    number c = .ok (n, stop) ↔
      token.text.length ≤ 1000 ∧ c.Passes token.text stop ∧
        NumberLiteral.ofRaw (String.ofList token.text) = .ok n := by
  obtain ⟨stop', hp, hscan⟩ := numberText_of_starts h
  constructor
  · intro hn
    obtain ⟨⟨raw, last⟩, hr, hn⟩ := bind_eq_ok.1 hn
    obtain ⟨rfl, rfl⟩ : token.text = raw ∧ stop' = last :=
      Prod.mk.inj (Except.ok.inj (hscan.symm.trans hr))
    dsimp only at hn
    split at hn
    · exact absurd hn fail_ne_ok
    · rename_i hlength
      split at hn
      · rename_i literal hliteral
        obtain ⟨rfl, rfl⟩ := Prod.mk.inj (Except.ok.inj hn)
        exact ⟨Nat.not_lt.1 hlength, hp, hliteral⟩
      · exact absurd hn fail_ne_ok
  · rintro ⟨hlength, hp', hliteral⟩
    refine bind_eq_ok.2 ⟨_, hp.unique hp' ▸ hscan, ?_⟩
    dsimp only
    rw [if_neg (show ¬maxNumberLength < token.text.length from Nat.not_lt.2 hlength), hliteral]

/-- **Numbers are read whole and exactly.**  A number is read where a text starts with a token of
at most 1000 characters that fits, and it is then what the token denotes, up to the end of the
token.  A literal is made of a text, and decoded from an object without a value, just if the text is
a token that fits, and it too is what the token denotes. -/
theorem numbers_read_exactly :
    (∀ c, (∃ n stop, number c = .ok (n, stop)) ↔
      ∃ token : NumberToken, token.Starts c.rest ∧ token.text.length ≤ 1000 ∧ token.Fits) ∧
    (∀ c n stop, ∀ token : NumberToken, number c = .ok (n, stop) → token.Starts c.rest →
      c.Passes token.text stop ∧ token.Denotes n) ∧
    (∀ raw, (∃ n, NumberLiteral.ofRaw raw = .ok n) ↔
      ∃ token : NumberToken, token.text = raw.toList ∧ token.Fits) ∧
    (∀ raw n, ∀ token : NumberToken, NumberLiteral.ofRaw raw = .ok n → token.text = raw.toList →
      token.Denotes n) ∧
    ∀ (j : Json) (raw : String), j.IsRawNumber raw →
      ∀ n, NumberLiteral.decode j = .ok n ↔ NumberLiteral.ofRaw raw = .ok n := by
  refine ⟨fun c => ⟨?_, ?_⟩, ?_, fun raw => ⟨?_, ?_⟩, ?_, ?_⟩
  · rintro ⟨n, stop, hn⟩
    -- what was read starts with a token, and this is the one it was read as
    obtain ⟨token, hstarts⟩ := exists_token_of_number hn
    obtain ⟨hlength, -, hliteral⟩ := (number_eq_ok_iff_of_starts hstarts).1 hn
    exact ⟨token, hstarts, hlength, (exists_ofRaw_iff String.toList_ofList.symm).1 ⟨n, hliteral⟩⟩
  · rintro ⟨token, hstarts, hlength, hfits⟩
    obtain ⟨n, hliteral⟩ := (exists_ofRaw_iff String.toList_ofList.symm).2 hfits
    obtain ⟨stop, hp, -⟩ := numberText_of_starts hstarts
    exact ⟨n, stop, (number_eq_ok_iff_of_starts hstarts).2 ⟨hlength, hp, hliteral⟩⟩
  · intro c n stop token hn hstarts
    obtain ⟨-, hp, hliteral⟩ := (number_eq_ok_iff_of_starts hstarts).1 hn
    exact ⟨hp, denotes_of_ofRaw String.toList_ofList.symm hliteral⟩
  · rintro ⟨n, hn⟩
    obtain ⟨token, htext⟩ := exists_token_of_ofRaw hn
    exact ⟨token, htext, (exists_ofRaw_iff htext).1 ⟨n, hn⟩⟩
  · rintro ⟨token, htext, hfits⟩
    exact (exists_ofRaw_iff htext).2 hfits
  · intro raw n token hn htext
    exact denotes_of_ofRaw htext hn
  · intro j raw hj n
    rw [decode_of_isRawNumber hj, Decoding.ofRule_eq_ok]

/-- Minus twelve and a half, with two places. -/
def signedToken : NumberToken where
  negative := true
  whole := ['1', '2']
  fraction := some ['5', '0']
  isDigits_whole := ⟨by decide, List.all_eq_true.1 rfl⟩
  isDigits_fraction := by
    rintro _ ⟨⟩
    exact ⟨by decide, List.all_eq_true.1 rfl⟩

/-- A key in brackets: the number is read up to the bracket, with its sign and both places. -/
theorem numbers_read_exactly_signed :
    ∃ n stop, number (.ofText "-12.50]".toList) = .ok (n, stop) ∧ stop.rest = [']'] ∧
      n.value.toRat = -25 / 2 ∧ n.precision = 2 := by
  have hstarts : signedToken.Starts "-12.50]".toList :=
    ⟨[']'], rfl, stops_cons.2 (by decide), nofun⟩
  have hfits : signedToken.Fits := ⟨by decide, by decide⟩
  obtain ⟨n, stop, hn⟩ := (numbers_read_exactly.1 (.ofText "-12.50]".toList)).2
    ⟨signedToken, hstarts, by decide, hfits⟩
  obtain ⟨hp, hdenotes⟩ := numbers_read_exactly.2.1 _ n stop signedToken hn hstarts
  have hrest : signedToken.text ++ [']'] = signedToken.text ++ stop.rest := hp.1
  refine ⟨n, stop, hn, (List.append_cancel_left hrest).symm, ?_, hdenotes.precision⟩
  have hvalue : signedToken.value = -(12 + 50 / 10 ^ 2) := by
    rw [NumberToken.value]
    simp [signedToken, NumberToken.places, digitsValue, digitValue]
  rw [hdenotes.value, hvalue]
  norm_num

end Fluent
