/-
# Which texts are tokens

What the rules for tokens read, and what they need behind it: a token is read from any text that
starts with it, as long as what follows does not prolong it.

* `identifier_eq_ok_iff`, `number_eq_ok_iff` : names and numbers;
* `attributeAccessor_eq_ok_iff`, `keyText_eq_ok_iff` : what is made of them.
-/
import Fluent.Proofs.Text.Passage
import Fluent.Grammar.Selection
import Fluent.Tree.Print

namespace Fluent.Grammar

/-! ## Single characters -/

/-- An expected character is read exactly when it is the text that is passed. -/
theorem expectChar_eq_ok_iff {c stop : Cursor} {ch : Char} :
    expectChar c ch = .ok stop ↔ c.Passes [ch] stop := by
  rw [expectChar_eq_ok]
  constructor
  · rintro ⟨hc, rfl⟩
    exact Cursor.passes_bump hc
  · intro hp
    exact ⟨hp.current_cons, (Cursor.bump_eq hp).symm⟩

/-! ## Names -/

/-- The text is a name. -/
structure IsName (name : List Char) : Prop where
  start : name.head?.any isIdentifierStart = true
  chars : ∀ ch ∈ name, isIdentifierChar ch = true
  length_le : name.length ≤ maxIdentifierLength

instance (name : List Char) : Decidable (IsName name) :=
  decidable_of_iff (name.head?.any isIdentifierStart = true ∧ name.all isIdentifierChar = true ∧
    name.length ≤ maxIdentifierLength)
    ⟨fun h => ⟨h.1, List.all_eq_true.1 h.2.1, h.2.2⟩,
      fun h => ⟨h.start, List.all_eq_true.2 h.chars, h.length_le⟩⟩

/-- A name is not empty. -/
theorem IsName.ne_nil {name : List Char} (h : IsName name) : name ≠ [] := by
  have hs := h.start
  rintro rfl
  exact absurd hs (by decide)

/-- A name starts with a letter. -/
theorem IsName.cons {name : List Char} (h : IsName name) :
    ∃ ch rest, name = ch :: rest ∧ isIdentifierStart ch = true := by
  cases name with
  | nil => exact absurd rfl h.ne_nil
  | cons ch rest => exact ⟨ch, rest, rfl, h.start⟩

/-- Names are read from texts that do not prolong them. -/
theorem identifier_eq_ok_iff {c stop : Cursor} {name : String} :
    identifier c = .ok (name, stop) ↔
      IsName name.toList ∧ c.Passes name.toList stop ∧ Stops isIdentifierChar stop.rest := by
  unfold identifier
  constructor
  · intro h
    by_cases hs : c.current.any isIdentifierStart = true
    · rw [if_pos hs] at h
      by_cases hl : maxIdentifierLength < (c.leading isIdentifierChar).length
      · rw [if_pos hl] at h
        exact absurd h fail_ne_ok
      · rw [if_neg hl] at h
        obtain ⟨rfl, rfl⟩ := Prod.mk.inj (Except.ok.inj h)
        rw [String.toList_ofList]
        refine ⟨⟨?_, Cursor.all_leading _ c, by omega⟩, Cursor.passes_skipWhile _ c,
          stops_dropWhile _ _⟩
        -- the test of the first character is one of the name, as the name starts with it
        obtain ⟨ch, hc, hch⟩ := (Option.any_eq_true _ _).1 hs
        have hhead : (c.leading isIdentifierChar).head? = some ch := by
          rw [Cursor.leading, List.head?_takeWhile, show c.rest.head? = some ch from hc]
          simp [isIdentifierChar_of_start hch]
        rw [hhead]
        exact hch
    · rw [if_neg hs] at h
      exact absurd h fail_ne_ok
  · rintro ⟨hname, hp, hstop⟩
    have hlead := Cursor.leading_eq hp hname.chars hstop
    have hskip : c.skipWhile isIdentifierChar = stop :=
      Cursor.skipWhile_eq_iff.2 ⟨_, hp, hname.chars, hstop⟩
    obtain ⟨ch, rest, hcons, hch⟩ := hname.cons
    have hstart : c.current.any isIdentifierStart = true := by
      rw [hp.current_eq, hcons]
      exact hch
    have hle := hname.length_le
    rw [if_pos hstart, hlead, if_neg (by omega), hskip, String.ofList_toList]

/-! ## Numbers -/

/-- A run of at least one digit. -/
def IsDigits (run : List Char) : Prop :=
  run ≠ [] ∧ ∀ ch ∈ run, ch.isDigit = true

/-- Digits are read exactly where a run of them stands and is over behind that. -/
theorem digits_eq_ok_iff {c stop : Cursor} {run : List Char} :
    digits c = .ok (run, stop) ↔
      IsDigits run ∧ c.Passes run stop ∧ Stops Char.isDigit stop.rest := by
  unfold digits
  constructor
  · intro h
    by_cases hr : c.leading Char.isDigit = []
    · rw [if_pos hr] at h
      exact absurd h fail_ne_ok
    · rw [if_neg hr] at h
      obtain ⟨rfl, rfl⟩ := Prod.mk.inj (Except.ok.inj h)
      exact ⟨⟨hr, Cursor.all_leading _ c⟩, Cursor.passes_skipWhile _ c, stops_dropWhile _ _⟩
  · rintro ⟨⟨hne, hall⟩, hp, hstop⟩
    have hskip : c.skipWhile Char.isDigit = stop := Cursor.skipWhile_eq_iff.2 ⟨_, hp, hall, hstop⟩
    rw [Cursor.leading_eq hp hall hstop, if_neg hne, hskip]

/-- The text is an optional minus, digits, and optionally a point with further digits. -/
def IsNumeral (raw : List Char) : Prop :=
  ∃ sign whole, (sign = [] ∨ sign = ['-']) ∧ IsDigits whole ∧
    (raw = sign ++ whole ∨ ∃ fraction, IsDigits fraction ∧ raw = sign ++ (whole ++ '.' :: fraction))

/-- The text does not prolong the number `raw`. -/
def NumberEnds (raw rest : List Char) : Prop :=
  Stops Char.isDigit rest ∧ ('.' ∉ raw → rest.head? ≠ some '.')

/-- A run of digits has no decimal point in it. -/
theorem IsDigits.point_not_mem {run : List Char} (h : IsDigits run) : '.' ∉ run :=
  fun hmem => absurd (h.2 _ hmem) (by decide)

/-- Reads the sign of a number, if one is there. -/
theorem passes_sign (c : Cursor) :
    ∃ sign, (sign = [] ∨ sign = ['-']) ∧
      sign = (if c.current = some '-' then ['-'] else []) ∧
      c.Passes sign (if c.current = some '-' then c.bump else c) := by
  by_cases hc : c.current = some '-'
  · rw [if_pos hc, if_pos hc]
    exact ⟨_, .inr rfl, rfl, Cursor.passes_bump hc⟩
  · rw [if_neg hc, if_neg hc]
    exact ⟨_, .inl rfl, rfl, .refl c⟩

/-- A sign is there if the text starts with one, and digits stand behind it. -/
theorem sign_eq {c mid stop : Cursor} {sign whole : List Char} (hsign : sign = [] ∨ sign = ['-'])
    (hp : c.Passes sign mid) (hw : mid.Passes whole stop) (hwhole : IsDigits whole) :
    (if c.current = some '-' then ['-'] else []) = sign ∧
      (if c.current = some '-' then c.bump else c) = mid := by
  rcases hsign with rfl | rfl
  · obtain rfl := hp.eq_of_nil
    have hne : mid.current ≠ some '-' := by
      obtain ⟨hne, hall⟩ := hwhole
      cases whole with
      | nil => exact absurd rfl hne
      | cons ch rest =>
        rw [hw.current_cons]
        intro h
        have hd := hall ch List.mem_cons_self
        rw [Option.some.inj h] at hd
        exact absurd hd (by decide)
    rw [if_neg hne, if_neg hne]
    exact ⟨rfl, rfl⟩
  · rw [if_pos hp.current_cons, if_pos hp.current_cons]
    exact ⟨rfl, Cursor.bump_eq hp⟩

/-- The text of a number is read exactly where a numeral stands and is over behind that. -/
theorem numberText_eq_ok_iff {c stop : Cursor} {raw : List Char} :
    numberText c = .ok (raw, stop) ↔
      IsNumeral raw ∧ c.Passes raw stop ∧ NumberEnds raw stop.rest := by
  constructor
  · intro h
    obtain ⟨sign, hsign, hs, hps⟩ := passes_sign c
    obtain ⟨⟨whole, point⟩, hw, h⟩ := bind_eq_ok.1 h
    obtain ⟨hwhole, hpw, hstop⟩ := digits_eq_ok_iff.1 hw
    dsimp only at h
    rw [← hs] at h
    by_cases hpoint : point.current = some '.'
    · rw [if_pos hpoint] at h
      obtain ⟨⟨fraction, last⟩, hf, h⟩ := bind_eq_ok.1 h
      obtain ⟨hfraction, hpf, hend⟩ := digits_eq_ok_iff.1 hf
      obtain ⟨rfl, rfl⟩ := Prod.mk.inj (Except.ok.inj h)
      refine ⟨⟨sign, whole, hsign, hwhole, .inr ⟨fraction, hfraction, by simp⟩⟩, ?_, hend, ?_⟩
      · have hp := hps.append (hpw.append ((Cursor.passes_bump hpoint).append hpf))
        simpa using hp
      · intro hmem
        simp at hmem
    · rw [if_neg hpoint] at h
      obtain ⟨rfl, rfl⟩ := Prod.mk.inj (Except.ok.inj h)
      exact ⟨⟨sign, whole, hsign, hwhole, .inl rfl⟩, hps.append hpw, hstop, fun _ => hpoint⟩
  · rintro ⟨⟨sign, whole, hsign, hwhole, hraw⟩, hp, hend, hdot⟩
    rcases hraw with rfl | ⟨fraction, hfraction, rfl⟩
    -- without a fraction no point may follow
    · obtain ⟨mid, hps, hpw⟩ := hp.split
      obtain ⟨hs, hmid⟩ := sign_eq hsign hps hpw hwhole
      have hnot : '.' ∉ sign ++ whole := by
        intro hmem
        rcases List.mem_append.1 hmem with h | h
        · rcases hsign with rfl | rfl <;> simp at h
        · exact hwhole.point_not_mem h
      have hd : digits mid = .ok (whole, stop) := digits_eq_ok_iff.2 ⟨hwhole, hpw, hend⟩
      unfold numberText
      rw [hs, hmid, hd]
      exact if_neg (hdot hnot)
    · obtain ⟨mid, hps, hp⟩ := hp.split
      obtain ⟨point, hpw, hp⟩ := hp.split
      obtain ⟨start, hpp, hpf⟩ := hp.uncons
      obtain ⟨hs, hmid⟩ := sign_eq hsign hps hpw hwhole
      have hd : digits mid = .ok (whole, point) := by
        refine digits_eq_ok_iff.2 ⟨hwhole, hpw, ?_⟩
        rw [hpp.1]
        exact stops_cons.2 (by decide)
      have hf : digits point.bump = .ok (fraction, stop) := by
        rw [Cursor.bump_eq hpp]
        exact digits_eq_ok_iff.2 ⟨hfraction, hpf, hend⟩
      unfold numberText
      rw [hs, hmid, hd]
      show (if point.current = some '.' then _ else _) = _
      rw [if_pos hpp.current_cons, hf]
      simp [bind, Except.bind, pure, Except.pure]

/-- A number literal that can be read. -/
structure IsNumber (n : NumberLiteral) : Prop where
  numeral : IsNumeral n.raw.toList
  length_le : n.raw.toList.length ≤ maxNumberLength
  ofRaw : NumberLiteral.ofRaw n.raw = .ok n

/-- A number literal keeps the text that it was made of. -/
theorem raw_eq_of_ofRaw {raw : String} {n : NumberLiteral} (h : NumberLiteral.ofRaw raw = .ok n) :
    n.raw = raw := by
  unfold NumberLiteral.ofRaw at h
  split at h
  · cases h
  · split at h
    · obtain rfl := Except.ok.inj h
      rfl
    · cases h

/-- A number literal is read exactly where its raw text stands and is over behind that. -/
theorem number_eq_ok_iff {c stop : Cursor} {n : NumberLiteral} :
    number c = .ok (n, stop) ↔
      IsNumber n ∧ c.Passes n.raw.toList stop ∧ NumberEnds n.raw.toList stop.rest := by
  constructor
  · intro h
    obtain ⟨⟨raw, last⟩, hr, h⟩ := bind_eq_ok.1 h
    obtain ⟨hnum, hp, hend⟩ := numberText_eq_ok_iff.1 hr
    dsimp only at h
    split at h
    · exact absurd h fail_ne_ok
    · rename_i hl
      split at h
      · rename_i n' hof
        obtain ⟨rfl, rfl⟩ := Prod.mk.inj (Except.ok.inj h)
        have hraw : n'.raw.toList = raw := by rw [raw_eq_of_ofRaw hof, String.toList_ofList]
        rw [hraw]
        refine ⟨⟨hraw ▸ hnum, by rw [hraw]; omega, ?_⟩, hp, hend⟩
        rw [← hof, raw_eq_of_ofRaw hof]
      · exact absurd h fail_ne_ok
  · rintro ⟨hn, hp, hend⟩
    have hr : numberText c = .ok (n.raw.toList, stop) :=
      numberText_eq_ok_iff.2 ⟨hn.numeral, hp, hend⟩
    have hle := hn.length_le
    unfold number
    rw [hr]
    show (if maxNumberLength < n.raw.toList.length then _ else _) = _
    rw [if_neg (by omega), String.ofList_toList, hn.ofRaw]

/-! ## What a token starts with -/

/-- What starts an identifier starts no number. -/
theorem isIdentifierStart_not_digit {ch : Char} (h : isIdentifierStart ch = true) :
    ch.isDigit = false ∧ ch ≠ '-' := by
  constructor
  · unfold isIdentifierStart Char.isAlpha Char.isUpper Char.isLower at h
    unfold Char.isDigit
    simp only [Bool.or_eq_true, Bool.and_eq_true, decide_eq_true_eq] at h
    simp only [Bool.and_eq_false_iff, decide_eq_false_iff_not]
    simp only [UInt32.le_iff_toNat_le] at *
    simp at *
    omega
  · rintro rfl
    exact absurd h (by decide)

/-- A number starts with a minus or a digit. -/
theorem IsNumeral.cons {raw : List Char} (h : IsNumeral raw) :
    ∃ ch rest, raw = ch :: rest ∧ (ch.isDigit || ch == '-') = true := by
  obtain ⟨sign, whole, hsign, ⟨hne, hall⟩, hraw⟩ := h
  cases whole with
  | nil => exact absurd rfl hne
  | cons ch rest =>
    have hd := hall ch List.mem_cons_self
    rcases hsign with rfl | rfl
    · rcases hraw with rfl | ⟨fraction, -, rfl⟩
      · exact ⟨ch, _, rfl, by simp [hd]⟩
      · exact ⟨ch, _, rfl, by simp [hd]⟩
    · rcases hraw with rfl | ⟨fraction, -, rfl⟩
      · exact ⟨'-', _, rfl, by simp⟩
      · exact ⟨'-', _, rfl, by simp⟩

/-- Where a number stands, one starts. -/
theorem startsNumber_of_numeral {c stop : Cursor} {raw : List Char} (h : IsNumeral raw)
    (hp : c.Passes raw stop) : startsNumber c = true := by
  obtain ⟨sign, whole, hsign, ⟨hne, hall⟩, hraw⟩ := h
  have hrest := hp.1
  cases whole with
  | nil => exact absurd rfl hne
  | cons ch rest =>
    have hd := hall ch List.mem_cons_self
    have hminus : ch ≠ '-' := by
      rintro rfl
      exact absurd hd (by decide)
    -- a digit starts a number by itself, a minus together with the digit behind it
    rcases hsign with rfl | rfl
    · have hc : c.current = some ch := by
        rw [Cursor.current, hrest]
        rcases hraw with rfl | ⟨fraction, -, rfl⟩ <;> rfl
      unfold startsNumber
      rw [hc]
      simp [hd]
    · have hc : c.current = some '-' ∧ c.peek 1 = some ch := by
        rw [Cursor.current, Cursor.peek, hrest]
        rcases hraw with rfl | ⟨fraction, -, rfl⟩ <;> exact ⟨rfl, rfl⟩
      unfold startsNumber
      rw [hc.1, hc.2]
      simpa using hd

/-- Where something other than a minus or a digit stands, no number starts. -/
theorem startsNumber_eq_false {c : Cursor} {ch : Char} (hc : c.current = some ch)
    (hminus : ch ≠ '-') (hdigit : ch.isDigit = false) : startsNumber c = false := by
  unfold startsNumber
  rw [hc]
  simp [hdigit]

/-- A minus before a letter starts no number. -/
theorem startsNumber_minus {c : Cursor} {ch : Char} {rest : List Char}
    (hc : c.rest = '-' :: ch :: rest) (h : isIdentifierStart ch = true) :
    startsNumber c = false := by
  have hd := (isIdentifierStart_not_digit h).1
  simp [startsNumber, Cursor.current, Cursor.peek, hc, hd]

/-! ## Attributes and keys -/

/-- An attribute that a reference may name. -/
def IsAccessor (attr : Option Identifier) : Prop :=
  ∀ id, attr = some id → IsName id.name.toList

/-- The absence of an attribute is an accessor. -/
theorem isAccessor_none : IsAccessor none := nofun

/-- The text does not prolong a reference. -/
def AccessorEnds : Option Identifier → List Char → Prop
  | some _, rest => Stops isIdentifierChar rest
  | none, rest => rest.head? ≠ some '.'

/-- An attribute accessor is read exactly where it stands as printed and is over behind that. -/
theorem attributeAccessor_eq_ok_iff {c stop : Cursor} {attr : Option Identifier} :
    attributeAccessor c = .ok (attr, stop) ↔
      IsAccessor attr ∧ c.Passes (printAccessor attr) stop ∧ AccessorEnds attr stop.rest := by
  unfold attributeAccessor
  constructor
  · intro h
    by_cases hc : c.current = some '.'
    · rw [if_pos hc] at h
      obtain ⟨⟨name, last⟩, hi, h⟩ := bind_eq_ok.1 h
      obtain ⟨hname, hp, hend⟩ := identifier_eq_ok_iff.1 hi
      obtain ⟨rfl, rfl⟩ := Prod.mk.inj (Except.ok.inj h)
      refine ⟨fun id hid => ?_, (Cursor.passes_bump hc).append hp, hend⟩
      obtain rfl := Option.some.inj hid
      exact hname
    · rw [if_neg hc] at h
      obtain ⟨rfl, rfl⟩ := Prod.mk.inj (Except.ok.inj h)
      exact ⟨isAccessor_none, .refl c, hc⟩
  · rintro ⟨hname, hp, hend⟩
    cases attr with
    | none =>
      obtain rfl := hp.eq_of_nil
      exact if_neg hend
    | some id =>
      obtain ⟨mid, hdot, hp⟩ := Cursor.Passes.uncons hp
      rw [if_pos hdot.current_cons, Cursor.bump_eq hdot]
      exact bind_eq_ok.2 ⟨_, identifier_eq_ok_iff.2 ⟨hname id rfl, hp, hend⟩, rfl⟩

/-- A key that a variant may have. -/
def IsKey : VariantKey → Prop
  | .identifier id => IsName id.name.toList
  | .number n => IsNumber n

/-- The text does not prolong a key. -/
def KeyEnds : VariantKey → List Char → Prop
  | .identifier _, rest => Stops isIdentifierChar rest
  | .number n, rest => NumberEnds n.raw.toList rest

/-- The text of a variant key is read exactly where it stands and is over behind that. -/
theorem keyText_eq_ok_iff {c stop : Cursor} {key : VariantKey} :
    keyText c = .ok (key, stop) ↔
      IsKey key ∧ c.Passes key.text.toList stop ∧ KeyEnds key stop.rest := by
  unfold keyText
  constructor
  · intro h
    split at h
    · obtain ⟨⟨n, last⟩, hn, h⟩ := bind_eq_ok.1 h
      obtain ⟨rfl, rfl⟩ := Prod.mk.inj (Except.ok.inj h)
      exact number_eq_ok_iff.1 hn
    · obtain ⟨⟨name, last⟩, hi, h⟩ := bind_eq_ok.1 h
      obtain ⟨rfl, rfl⟩ := Prod.mk.inj (Except.ok.inj h)
      exact identifier_eq_ok_iff.1 hi
  · intro h
    cases key with
    | number n =>
      obtain ⟨hn, hp, hend⟩ := h
      -- a number starts with a digit or a minus, a name with neither
      obtain ⟨ch, rest, hcons, hch⟩ := hn.numeral.cons
      rw [if_pos]
      · exact bind_eq_ok.2 ⟨_, number_eq_ok_iff.2 ⟨hn, hp, hend⟩, rfl⟩
      · rw [hp.current_eq, VariantKey.text, hcons]
        exact hch
    | identifier id =>
      obtain ⟨hname, hp, hend⟩ := h
      obtain ⟨ch, rest, hcons, hch⟩ := IsName.cons hname
      rw [if_neg]
      · exact bind_eq_ok.2 ⟨_, identifier_eq_ok_iff.2 ⟨hname, hp, hend⟩, rfl⟩
      · obtain ⟨hdigit, hminus⟩ := isIdentifierStart_not_digit hch
        rw [hp.current_eq, VariantKey.text, hcons]
        simp [hdigit, hminus]

end Fluent.Grammar
