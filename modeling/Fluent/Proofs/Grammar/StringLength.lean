/-
# How long a text between quotes may be

The text between the quotes of a string literal is measured by cursor positions, so by the bytes it
takes and not by its characters.  The two measures agree where each character takes one byte; in
other scripts a text is refused that has far fewer characters than there may be bytes.

* `quotedFrom_of_long` : reading fails behind the last byte that is allowed;
* `string_limit_in_bytes` : what the two readers of string literals answer;
* `string_of_emoji_refused` : a text with a quarter of the characters is too long.
-/
import Fluent.Proofs.Grammar.Spelling

namespace Fluent.Grammar

/-! ## Reading up to the limit -/

/-- **A text between quotes that takes too many bytes is not read**, whatever follows it.  Its
characters and escapes are read up to the limit, and the failure is reported where it starts. -/
theorem quotedFrom_of_long {start c stop : Cursor} {raw read : List Char} (hraw : Spells raw read)
    (value : List Char) (hp : c.Passes raw stop) (hstart : start.pos ≤ c.pos)
    (hlong : maxStringLength < stop.pos - start.pos) :
    quotedFrom start value c =
      start.fail (.tokenTooLong "string literal" maxStringLength) := by
  -- the rest of the text takes the bytes that are missing up to the limit
  induction hraw generalizing c value with
  | nil =>
    obtain rfl := hp.eq_of_nil
    rw [quotedFrom_eq, if_pos hlong]
  | @plain ch raw read hquote hslash hfeed hreturn _ ih =>
    by_cases hhere : maxStringLength < c.pos - start.pos
    · rw [quotedFrom_eq, if_pos hhere]
    · obtain ⟨mid, hch, hp⟩ := hp.uncons
      rw [quotedFrom_plain hhere hquote hslash hfeed hreturn hch]
      exact ih _ hp (by rw [hch.2]; omega)
  | @escape ch text raw read htext _ ih =>
    by_cases hhere : maxStringLength < c.pos - start.pos
    · rw [quotedFrom_eq, if_pos hhere]
    · obtain ⟨mid, hesc, hp⟩ := hp.split
      rw [quotedFrom_escape hhere htext hesc]
      exact ih _ hp (by rw [hesc.2]; omega)

/-- A quoted text that takes too many bytes is refused, wherever it stands. -/
theorem quoted_of_long {c stop : Cursor} {raw value : List Char} (hraw : Spells raw value)
    (hp : c.Passes raw stop) (hlong : maxStringLength < utf8Length raw) :
    quoted c = c.fail (.tokenTooLong "string literal" maxStringLength) :=
  quotedFrom_of_long hraw [] hp (Nat.le_refl _) (by rw [hp.2]; omega)

/-! ## The two readers -/

/-- Both readers of string literals answer the literal: the constructor for the text, and the rule
for the text between quotes, wherever that stands. -/
def StringReadAs (raw : String) (l : StringLiteral) : Prop :=
  StringLiteral.ofRaw raw = .ok l ∧
    ∀ rest pos, stringLiteral ⟨'"' :: (raw.toList ++ '"' :: rest), pos⟩ =
      .ok (l, ⟨rest, pos + utf8Length raw.toList + 2⟩)

/-- Both readers of string literals report that the text is too long, the rule whatever follows and
at the place behind the first quote. -/
def StringTooLong (raw : String) : Prop :=
  StringLiteral.ofRaw raw = .error (.invalidString raw
      (FailureKind.tokenTooLong "string literal" maxStringLength).message) ∧
    ∀ rest pos, stringLiteral ⟨'"' :: (raw.toList ++ rest), pos⟩ =
      .error ⟨pos + 1, .tokenTooLong "string literal" maxStringLength, []⟩

/-- A raw text that spells a value, and is short enough, is read as a literal with that value. -/
theorem stringReadAs_of_spells {raw : String} {value : List Char} (h : Spells raw.toList value)
    (hraw : utf8Length raw.toList ≤ maxStringLength) :
    StringReadAs raw ⟨String.ofList value, raw⟩ := by
  have hspells : Spells raw.toList (String.ofList value).toList := by
    rwa [String.toList_ofList]
  exact ⟨ofRaw_eq_ok_iff.2 ⟨rfl, hspells, hraw⟩, fun rest pos =>
    stringLiteral_eq_ok_iff_spells.2 ⟨passes_print ⟨_, raw⟩ rest pos, hspells, hraw⟩⟩

/-- A raw text that spells a value is refused as too long once it takes too many bytes. -/
theorem stringTooLong_of_spells {raw : String} {value : List Char} (h : Spells raw.toList value)
    (hraw : maxStringLength < utf8Length raw.toList) : StringTooLong raw := by
  constructor
  · rw [StringLiteral.ofRaw, unescape, quoted_of_long h (Cursor.passes_ofText raw.toList) hraw]
    rfl
  · intro rest pos
    have hopen : expectChar ⟨'"' :: (raw.toList ++ rest), pos⟩ '"' =
        .ok ⟨raw.toList ++ rest, pos + 1⟩ := expectChar_eq_ok_iff.2 ⟨rfl, rfl⟩
    have hp : (⟨raw.toList ++ rest, pos + 1⟩ : Cursor).Passes raw.toList
        ⟨rest, pos + 1 + utf8Length raw.toList⟩ := ⟨rfl, rfl⟩
    unfold stringLiteral
    rw [hopen]
    show (quoted _ >>= _) = _
    rw [quoted_of_long h hp hraw]
    rfl

/-- **The limit for string literals is one of bytes.**  A text that spells a value is read as the
literal with that value, by the constructor and between quotes, if it takes no more bytes than
allowed, and else refused as too long by both.  So every text with too many characters is refused,
but of those with fewer just the ones that do not take too many bytes are read; these are all of
them where each character takes one byte. -/
theorem string_limit_in_bytes {raw : String} {value : List Char} (h : Spells raw.toList value) :
    (utf8Length raw.toList ≤ maxStringLength → StringReadAs raw ⟨String.ofList value, raw⟩) ∧
      (maxStringLength < utf8Length raw.toList → StringTooLong raw) ∧
      (maxStringLength < raw.length → StringTooLong raw) ∧
      ((∀ ch ∈ raw.toList, ch.utf8Size = 1) → raw.length ≤ maxStringLength →
        StringReadAs raw ⟨String.ofList value, raw⟩) := by
  have hle : raw.length ≤ utf8Length raw.toList := by
    rw [← String.length_toList]
    exact length_le_utf8Length _
  refine ⟨stringReadAs_of_spells h, stringTooLong_of_spells h, fun hlong => ?_,
    fun hbytes hshort => ?_⟩
  · exact stringTooLong_of_spells h (Nat.lt_of_lt_of_le hlong hle)
  · refine stringReadAs_of_spells h ?_
    rwa [utf8Length_eq_length_iff.2 hbytes, String.length_toList]

/-! ## Texts of one character -/

/-- A character that needs no escape spells itself, any number of times. -/
theorem spells_replicate {ch : Char} (hquote : ch ≠ '"') (hslash : ch ≠ '\\') (hfeed : ch ≠ '\n')
    (hreturn : ch ≠ '\r') (n : Nat) : Spells (List.replicate n ch) (List.replicate n ch) := by
  induction n with
  | zero => exact .nil
  | succ n ih => exact .plain hquote hslash hfeed hreturn ih

/-- A repeated character takes its bytes that many times. -/
theorem utf8Length_replicate (n : Nat) (ch : Char) :
    utf8Length (List.replicate n ch) = n * ch.utf8Size := by
  induction n with
  | zero => exact (Nat.zero_mul _).symm
  | succ n ih => rw [List.replicate_succ, utf8Length_cons, ih, Nat.succ_mul, Nat.add_comm]

/-- Of a letter that takes two bytes there may be half as many as there may be bytes, not one
more. -/
theorem string_limit_in_bytes_accented :
    StringReadAs (String.ofList (List.replicate 32768 'é'))
        ⟨String.ofList (List.replicate 32768 'é'), String.ofList (List.replicate 32768 'é')⟩ ∧
      StringTooLong (String.ofList (List.replicate 32769 'é')) := by
  have hspells : ∀ n, Spells (String.ofList (List.replicate n 'é')).toList
      (List.replicate n 'é') := by
    intro n
    rw [String.toList_ofList]
    exact spells_replicate (by decide) (by decide) (by decide) (by decide) n
  have hbytes : ∀ n, utf8Length (String.ofList (List.replicate n 'é')).toList = n * 2 := by
    intro n
    rw [String.toList_ofList, utf8Length_replicate]
    rfl
  constructor
  · exact (string_limit_in_bytes (hspells 32768)).1 (by rw [hbytes]; decide)
  · exact (string_limit_in_bytes (hspells 32769)).2.1 (by rw [hbytes]; decide)

/-- A text of ordinary characters that has a quarter of the characters, and one more, is refused by
both readers: each of its characters takes four bytes. -/
theorem string_of_emoji_refused :
    Spells (String.ofList (List.replicate 16385 '😀')).toList (List.replicate 16385 '😀') ∧
      (String.ofList (List.replicate 16385 '😀')).length ≤ maxStringLength ∧
      StringTooLong (String.ofList (List.replicate 16385 '😀')) := by
  have hspells : Spells (String.ofList (List.replicate 16385 '😀')).toList
      (List.replicate 16385 '😀') := by
    rw [String.toList_ofList]
    exact spells_replicate (by decide) (by decide) (by decide) (by decide) _
  refine ⟨hspells, ?_, stringTooLong_of_spells hspells ?_⟩
  · rw [String.length_ofList, List.length_replicate]
    decide
  · rw [String.toList_ofList, utf8Length_replicate]
    decide

end Fluent.Grammar
