/-
# How values are spelled between quotes

The text between the quotes of a string literal is a sequence of characters that stand for
themselves and of escapes.  `Spells` is that grammar, without regard to where the text stands; the
two readers of such texts, the one that ends at a quote and the one that ends with its input, accept
what spells a value and nothing else.

* `quoted_eq_ok_iff` : what is read up to a quote or the end of the input;
* `ofRaw_eq_ok_iff`, `stringLiteral_eq_ok_iff_spells` : what the two readers accept;
* `spells_escapeText` : an escaped value spells itself;
* `ofRaw_iff_stringLiteral` : so the two readers agree.
-/
import Fluent.Proofs.Grammar.Strings
import Fluent.Proofs.Tree.Constructors

namespace Fluent

/-- A code point has a character if it is the number of one. -/
theorem charOfCodePoint?_eq_some_iff {n : Nat} {ch : Char} :
    charOfCodePoint? n = some ch ↔ ch.toNat = n := by
  unfold charOfCodePoint?
  constructor
  · intro h
    by_cases hvalid : n.isValidChar
    · rw [dif_pos hvalid] at h
      obtain rfl := Option.some.inj h
      rfl
    · rw [dif_neg hvalid] at h
      cases h
  · rintro rfl
    exact dif_pos ch.valid

namespace Grammar

/-! ## The grammar of escapes -/

/-- The text is an escape, with its backslash, for the character.  The digits of a code point are
those of a character: there are none for surrogates and above 10FFFF. -/
inductive IsEscape : List Char → Char → Prop
  | backslash : IsEscape ['\\', '\\'] '\\'
  | quote : IsEscape ['\\', '"'] '"'
  | lineFeed : IsEscape ['\\', 'n'] '\n'
  | fourDigits {hex : List Char} {ch : Char} (hlength : hex.length = 4)
      (hhex : ∀ x ∈ hex, isHexDigit x = true) (hch : ch.toNat = hexValue hex) :
      IsEscape ('\\' :: 'u' :: hex) ch
  | sixDigits {hex : List Char} {ch : Char} (hlength : hex.length = 6)
      (hhex : ∀ x ∈ hex, isHexDigit x = true) (hch : ch.toNat = hexValue hex) :
      IsEscape ('\\' :: 'U' :: hex) ch

/-- The text between quotes stands for the value. -/
inductive Spells : List Char → List Char → Prop
  | nil : Spells [] []
  | plain {ch : Char} {raw value : List Char} (hquote : ch ≠ '"') (hslash : ch ≠ '\\')
      (hfeed : ch ≠ '\n') (hreturn : ch ≠ '\r') (hrest : Spells raw value) :
      Spells (ch :: raw) (ch :: value)
  | escape {ch : Char} {text raw value : List Char} (htext : IsEscape text ch)
      (hrest : Spells raw value) : Spells (text ++ raw) (ch :: value)

/-- An escape starts with a backslash. -/
theorem IsEscape.cons {text : List Char} {ch : Char} (h : IsEscape text ch) :
    ∃ rest, text = '\\' :: rest := by
  cases h <;> exact ⟨_, rfl⟩

/-- An escaped value spells itself. -/
theorem spells_escapeText (value : List Char) : Spells (escapeText value) value := by
  induction value with
  | nil => exact .nil
  | cons ch value ih =>
    show Spells (escapeChar ch ++ escapeText value) (ch :: value)
    unfold escapeChar
    split
    · exact .escape .backslash ih
    · exact .escape .quote ih
    · exact .escape .lineFeed ih
    · exact .escape (@IsEscape.fourDigits ['0', '0', '0', 'D'] _ rfl
        (List.all_eq_true.1 (by decide)) (by decide)) ih
    · rename_i hslash hquote hfeed hreturn
      exact .plain hquote hslash hfeed hreturn ih

/-! ## Reading escapes -/

/-- Some digits of a code point are read wherever they stand, and nothing else is. -/
theorem unicodeEscape_eq_ok_iff {c stop : Cursor} {count : Nat} {mark ch : Char}
    (hcount : 0 < count) (hmark : c.current = some mark) :
    unicodeEscape c count = .ok (ch, stop) ↔
      ∃ hex, c.Passes (mark :: hex) stop ∧ hex.length = count ∧
        (∀ x ∈ hex, isHexDigit x = true) ∧ ch.toNat = hexValue hex := by
  constructor
  · intro h
    obtain ⟨hex, hp, hlength, hhex, hch⟩ := unicodeEscape_ok hmark h
    exact ⟨hex, hp, hlength, hhex, charOfCodePoint?_eq_some_iff.1 hch⟩
  · rintro ⟨hex, hp, hlength, hhex, hch⟩
    exact unicodeEscape_of_passes hcount hp hlength hhex (charOfCodePoint?_eq_some_iff.2 hch)

/-- Just the escapes are read, each wherever it stands. -/
theorem escape_eq_ok_iff {c stop : Cursor} {ch : Char} :
    escape c = .ok (ch, stop) ↔ ∃ text, IsEscape text ch ∧ c.Passes text stop := by
  constructor
  · intro h
    obtain ⟨mark, hm, h⟩ := bind_eq_ok.1 h
    have hslash := expectChar_eq_ok_iff.1 hm
    split at h
    case h_1 | h_2 | h_3 =>
      rename_i hcur
      obtain ⟨rfl, rfl⟩ := Prod.mk.inj (Except.ok.inj h)
      exact ⟨_, by constructor, hslash.append (Cursor.passes_bump hcur)⟩
    case h_4 =>
      rename_i hcur
      obtain ⟨hex, hp, hlength, hhex, hch⟩ := (unicodeEscape_eq_ok_iff (by decide) hcur).1 h
      exact ⟨_, .fourDigits hlength hhex hch, hslash.append hp⟩
    case h_5 =>
      rename_i hcur
      obtain ⟨hex, hp, hlength, hhex, hch⟩ := (unicodeEscape_eq_ok_iff (by decide) hcur).1 h
      exact ⟨_, .sixDigits hlength hhex hch, hslash.append hp⟩
    case h_6 => cases h
    case h_7 => exact absurd h fail_ne_ok
  · rintro ⟨text, htext, hp⟩
    obtain ⟨rest, rfl⟩ := htext.cons
    obtain ⟨mark, hslash, hp⟩ := hp.uncons
    refine bind_eq_ok.2 ⟨mark, expectChar_eq_ok_iff.2 hslash, ?_⟩
    -- the character behind the backslash tells the escapes apart
    cases htext with
    | backslash | quote | lineFeed =>
      rw [hp.current_cons, Cursor.bump_eq hp]
      rfl
    | fourDigits hlength hhex hch | sixDigits hlength hhex hch =>
      rw [hp.current_cons]
      exact (unicodeEscape_eq_ok_iff (by decide) hp.current_cons).2 ⟨_, hp, hlength, hhex, hch⟩

/-! ## Reading between quotes -/

/-- A character that stands for itself is passed. -/
theorem quotedFrom_plain {start c next : Cursor} {value : List Char} {ch : Char}
    (hlength : ¬maxStringLength < c.pos - start.pos) (hquote : ch ≠ '"') (hslash : ch ≠ '\\')
    (hfeed : ch ≠ '\n') (hreturn : ch ≠ '\r') (hp : c.Passes [ch] next) :
    quotedFrom start value c = quotedFrom start (ch :: value) next := by
  rw [quotedFrom_eq, if_neg hlength, hp.current_cons, Cursor.bump_eq hp]
  dsimp only
  rw [if_neg hquote, if_neg (fun h => h.elim hfeed hreturn), if_neg hslash]

/-- An escape is passed as a whole. -/
theorem quotedFrom_escape {start c next : Cursor} {value text : List Char} {ch : Char}
    (hlength : ¬maxStringLength < c.pos - start.pos) (htext : IsEscape text ch)
    (hp : c.Passes text next) :
    quotedFrom start value c = quotedFrom start (ch :: value) next := by
  have hescape := escape_eq_ok_iff.2 ⟨text, htext, hp⟩
  obtain ⟨rest, rfl⟩ := htext.cons
  rw [quotedFrom_eq, if_neg hlength, hp.current_cons]
  show (escape c >>= _) = _
  rw [hescape]
  rfl

/-- Reading goes on just over what spells a value, up to a quote or the end of the input, as long as
the text is not too long. -/
theorem quotedFrom_eq_ok_iff {start c stop : Cursor} {value found : List Char}
    (hstart : start.pos ≤ c.pos) :
    quotedFrom start value c = .ok (found, stop) ↔
      ∃ raw read, Spells raw read ∧ c.Passes raw stop ∧ QuoteEnds stop ∧
        stop.pos - start.pos ≤ maxStringLength ∧ found = value.reverse ++ read := by
  constructor
  · intro h
    fun_induction quotedFrom start value c with
    | case1 | case4 | case5 => exact absurd h fail_ne_ok
    | case2 value c hlength hc =>
      obtain ⟨rfl, rfl⟩ := Prod.mk.inj (Except.ok.inj h)
      exact ⟨[], [], .nil, .refl c, .inl hc, by omega, by simp⟩
    | case3 value c hlength hc =>
      obtain ⟨rfl, rfl⟩ := Prod.mk.inj (Except.ok.inj h)
      exact ⟨[], [], .nil, .refl c, .inr hc, by omega, by simp⟩
    | case6 value c hlength hc ch next he ih =>
      obtain ⟨text, htext, hp⟩ := escape_eq_ok_iff.1 he
      obtain ⟨raw, read, hraw, hpr, hend, hle, rfl⟩ := ih (by rw [hp.2]; omega) h
      exact ⟨_, _, .escape htext hraw, hp.append hpr, hend, hle, by simp⟩
    | case7 => cases h
    | case8 value c hlength ch hquote hfeed hreturn hslash hc ih =>
      have hp := Cursor.passes_bump hc
      obtain ⟨raw, read, hraw, hpr, hend, hle, rfl⟩ := ih (by rw [hp.2]; omega) h
      exact ⟨_, _, .plain hquote hslash hfeed hreturn hraw, hp.append hpr, hend, hle, by simp⟩
  · rintro ⟨raw, read, hraw, hp, hend, hle, rfl⟩
    induction hraw generalizing c value with
    | nil =>
      obtain rfl := hp.eq_of_nil
      rw [List.append_nil]
      exact quotedFrom_of_ends (by omega) hend
    | @plain ch raw read hquote hslash hfeed hreturn _ ih =>
      -- the text read so far is no longer than all of it
      have hlength := Cursor.pos_le_of_le hp.le
      obtain ⟨mid, hch, hp⟩ := hp.uncons
      rw [quotedFrom_plain (by omega) hquote hslash hfeed hreturn hch,
        ih (by rw [hch.2]; omega) hp]
      simp
    | @escape ch text raw read htext _ ih =>
      have hlength := Cursor.pos_le_of_le hp.le
      obtain ⟨mid, hesc, hraw⟩ := hp.split
      rw [quotedFrom_escape (by omega) htext hesc, ih (by rw [hesc.2]; omega) hraw]
      simp

/-- **Between quotes just that is read which spells a value**, up to a quote or the end of the
input. -/
theorem quoted_eq_ok_iff {c stop : Cursor} {value : List Char} :
    quoted c = .ok (value, stop) ↔
      ∃ raw, Spells raw value ∧ c.Passes raw stop ∧ QuoteEnds stop ∧
        utf8Length raw ≤ maxStringLength := by
  rw [quoted, quotedFrom_eq_ok_iff (Nat.le_refl _)]
  constructor
  · rintro ⟨raw, read, hraw, hp, hend, hle, rfl⟩
    refine ⟨raw, hraw, hp, hend, ?_⟩
    rw [hp.2] at hle
    omega
  · rintro ⟨raw, hraw, hp, hend, hle⟩
    refine ⟨raw, value, hraw, hp, hend, ?_, by simp⟩
    rw [hp.2]
    omega

/-! ## The two readers -/

/-- The constructor accepts the texts that spell a value and are not too long. -/
theorem ofRaw_eq_ok_iff {raw : String} {l : StringLiteral} :
    StringLiteral.ofRaw raw = .ok l ↔
      l.raw = raw ∧ Spells raw.toList l.value.toList ∧
        utf8Length raw.toList ≤ maxStringLength := by
  constructor
  · intro h
    unfold StringLiteral.ofRaw unescape at h
    split at h
    · rename_i value heq
      obtain rfl := Except.ok.inj h
      split at heq
      · cases heq
      · rename_i found stop hq
        split at heq
        · rename_i hstop
          obtain rfl := Except.ok.inj heq
          obtain ⟨text, htext, hp, -, hle⟩ := quoted_eq_ok_iff.1 hq
          -- nothing is left, so the text is all that there was
          have hnil : stop.rest = [] := List.isEmpty_iff.1 hstop
          have hraw : raw.toList = text := by
            have hrest := hp.1
            rwa [hnil, List.append_nil] at hrest
          rw [hraw, String.toList_ofList]
          exact ⟨rfl, htext, hle⟩
        · cases heq
    · cases h
  · rintro ⟨rfl, hraw, hle⟩
    have hq := quoted_eq_ok_iff.2 ⟨_, hraw, Cursor.passes_ofText l.raw.toList, .inl rfl, hle⟩
    rw [StringLiteral.ofRaw, unescape, hq]
    simp [Cursor.atEnd]

/-- With its quotes just that is read which spells its value, wherever it stands. -/
theorem stringLiteral_eq_ok_iff_spells {c stop : Cursor} {l : StringLiteral} :
    stringLiteral c = .ok (l, stop) ↔
      c.Passes l.print stop ∧ Spells l.raw.toList l.value.toList ∧
        utf8Length l.raw.toList ≤ maxStringLength := by
  constructor
  · intro h
    obtain ⟨start, hs, h⟩ := bind_eq_ok.1 h
    obtain ⟨⟨value, last⟩, hq, h⟩ := bind_eq_ok.1 h
    have hopen := expectChar_eq_ok_iff.1 hs
    obtain ⟨raw, hraw, hp, -, hle⟩ := quoted_eq_ok_iff.1 hq
    dsimp only at h
    split at h
    · rename_i hclose
      obtain ⟨rfl, rfl⟩ := Prod.mk.inj (Except.ok.inj h)
      rw [StringLiteral.print, Cursor.textTo_eq hp.1, String.toList_ofList, String.toList_ofList]
      exact ⟨hopen.append (hp.append (Cursor.passes_bump hclose)), hraw, hle⟩
    · exact absurd h fail_ne_ok
  · rintro ⟨hp, hraw, hle⟩
    obtain ⟨start, hopen, hp⟩ := Cursor.Passes.uncons hp
    obtain ⟨last, hp, hclose⟩ := hp.split
    have hq := quoted_eq_ok_iff.2 ⟨_, hraw, hp, .inr hclose.current_cons, hle⟩
    refine bind_eq_ok.2 ⟨start, expectChar_eq_ok_iff.2 hopen, bind_eq_ok.2 ⟨_, hq, ?_⟩⟩
    dsimp only
    rw [if_pos hclose.current_cons, Cursor.textTo_eq hp.1, Cursor.bump_eq hclose]
    simp
    rfl

/-- A literal with its quotes leads to what stands behind the second one. -/
theorem passes_print (l : StringLiteral) (rest : List Char) (pos : Nat) :
    Cursor.Passes ⟨'"' :: (l.raw.toList ++ '"' :: rest), pos⟩ l.print
      ⟨rest, pos + utf8Length l.raw.toList + 2⟩ := by
  have hquote : '"'.utf8Size = 1 := by decide
  refine ⟨by simp [StringLiteral.print], ?_⟩
  rw [StringLiteral.print, utf8Length_append, utf8Length_cons, utf8Length_cons, utf8Length_nil,
    hquote]
  dsimp only
  omega

/-- A checked string literal is read wherever it stands. -/
theorem isString_of_checked {s : StringLiteral} (h : s.Checked) : IsString s := by
  obtain ⟨-, hraw, hle⟩ := ofRaw_eq_ok_iff.1 h
  have hread := stringLiteral_eq_ok_iff_spells.2 ⟨Cursor.passes_ofText s.print, hraw, hle⟩
  exact (stringLiteral_eq_ok_iff.1 hread).1

/-- **The two readers of string literals agree.**  A text that is not too long is accepted by the
constructor if and only if it is read between quotes, whatever follows them, up to the second quote
and as the same literal.  Both accept just the texts that spell a value, as the literal with that
value. -/
theorem ofRaw_iff_stringLiteral {raw : String} (hraw : utf8Length raw.toList ≤ maxStringLength)
    (rest : List Char) (pos : Nat) (l : StringLiteral) :
    (StringLiteral.ofRaw raw = .ok l ↔
      stringLiteral ⟨'"' :: (raw.toList ++ '"' :: rest), pos⟩ =
        .ok (l, ⟨rest, pos + utf8Length raw.toList + 2⟩)) ∧
    (StringLiteral.ofRaw raw = .ok l ↔ l.raw = raw ∧ Spells raw.toList l.value.toList) := by
  have hspells : StringLiteral.ofRaw raw = .ok l ↔
      l.raw = raw ∧ Spells raw.toList l.value.toList := by
    rw [ofRaw_eq_ok_iff]
    exact ⟨fun h => ⟨h.1, h.2.1⟩, fun h => ⟨h.1, h.2, hraw⟩⟩
  refine ⟨?_, hspells⟩
  rw [hspells, stringLiteral_eq_ok_iff_spells]
  constructor
  · rintro ⟨rfl, hvalue⟩
    exact ⟨passes_print l rest pos, hvalue, hraw⟩
  · rintro ⟨hp, hvalue, -⟩
    -- what stands before the rest is the text of the literal with its quotes
    have htext : raw.toList = l.raw.toList := by
      have hrest := hp.1
      rw [StringLiteral.print] at hrest
      simpa using hrest
    rw [htext]
    exact ⟨String.toList_injective htext.symm, hvalue⟩

/-- A quote behind a backslash does not end the text, and of five digits the last one is no part of
the escape. -/
theorem ofRaw_iff_stringLiteral_digits :
    utf8Length "a\\\"\\u00411".toList ≤ maxStringLength ∧
      StringLiteral.ofRaw "a\\\"\\u00411" = .ok ⟨"a\"A1", "a\\\"\\u00411"⟩ ∧
      stringLiteral ⟨'"' :: ("a\\\"\\u00411".toList ++ '"' :: ['"']), 3⟩ =
        .ok (⟨"a\"A1", "a\\\"\\u00411"⟩, ⟨['"'], 15⟩) ∧
      Spells "a\\\"\\u00411".toList "a\"A1".toList := by
  have hlength : utf8Length "a\\\"\\u00411".toList ≤ maxStringLength := by decide
  have hspells : Spells "a\\\"\\u00411".toList "a\"A1".toList :=
    .plain (by decide) (by decide) (by decide) (by decide) (.escape .quote
      (.escape (@IsEscape.fourDigits ['0', '0', '4', '1'] _ rfl
        (List.all_eq_true.1 (by decide)) (by decide))
        (.plain (by decide) (by decide) (by decide) (by decide) .nil)))
  have h := ofRaw_iff_stringLiteral hlength ['"'] 3 ⟨"a\"A1", "a\\\"\\u00411"⟩
  have hraw := h.2.2 ⟨rfl, hspells⟩
  exact ⟨hlength, hraw, h.1.1 hraw, hspells⟩

end Grammar

end Fluent
