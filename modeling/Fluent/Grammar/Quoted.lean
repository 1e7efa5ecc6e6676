/-
# Quoted text

The text between the quotes of a string literal: characters other than quotes, backslashes and line
ends, and the escapes `\\`, `\"`, `\n`, `\u` with four and `\U` with six hexadecimal digits.

* `escape_lt` : an escape that is read is not empty;
* `escapeText` : how a text is written so that it may stand between quotes.
-/
import Fluent.Grammar.Token
import Fluent.Text.Hex

namespace Fluent.Grammar

/-- The bytes that the text between two quotes may have. -/
def maxStringLength : Nat := 65536

/-- Reads exactly `count` hexadecimal digits behind the `u` or `U` under the cursor.  No number is
written without digits. -/
def unicodeEscape (c : Cursor) (count : Nat) : Reading (Char × Cursor) :=
  let hex := (c.bump.leading isHexDigit).take count
  let stop := c.bump.advance hex.length
  let invalid : Reading (Char × Cursor) :=
    c.fail (.invalidUnicodeEscape (String.ofList (c.textTo stop)))
  if 0 < count ∧ hex.length = count then
    match charOfCodePoint? (hexValue hex) with
    | some ch => .ok (ch, stop)
    | none => invalid
  else
    invalid

/-- Reads the escape at the backslash under the cursor. -/
def escape (c : Cursor) : Reading (Char × Cursor) := do
  let mark ← expectChar c '\\'
  match mark.current with
  | some '\\' => .ok ('\\', mark.bump)
  | some '"' => .ok ('"', mark.bump)
  | some 'n' => .ok ('\n', mark.bump)
  | some 'u' => unicodeEscape mark 4
  | some 'U' => unicodeEscape mark 6
  | some other =>
    .error ⟨c.pos, .unknownEscape other.toString,
      ["\\\\", "\\\"", "\\n", "\\uHHHH", "\\UHHHHHH"]⟩
  | none => mark.fail .unterminatedString

/-- The hexadecimal digits of an escape never move back. -/
theorem unicodeEscape_le {c stop : Cursor} {count : Nat} {ch : Char}
    (h : unicodeEscape c count = .ok (ch, stop)) : c ≤ stop := by
  have hle : c ≤ c.bump.advance ((c.bump.leading isHexDigit).take count).length :=
    Cursor.le_trans (Cursor.le_bump c) (Cursor.le_advance _ _)
  simp only [unicodeEscape] at h
  split at h
  · split at h
    · obtain ⟨-, rfl⟩ := Prod.mk.inj (Except.ok.inj h)
      exact hle
    · exact absurd h fail_ne_ok
  · exact absurd h fail_ne_ok

/-- An escape reads at least its backslash. -/
theorem escape_lt {c stop : Cursor} {ch : Char} (h : escape c = .ok (ch, stop)) : c < stop := by
  obtain ⟨mark, hmark, h⟩ := bind_eq_ok.1 h
  refine Cursor.lt_of_lt_of_le (expectChar_lt hmark) ?_
  split at h
  case h_1 | h_2 | h_3 =>
    obtain ⟨-, rfl⟩ := Prod.mk.inj (Except.ok.inj h)
    exact Cursor.le_bump _
  case h_4 | h_5 => exact unicodeEscape_le h
  case h_6 => cases h
  case h_7 => exact absurd h fail_ne_ok

/-- Reads text up to a quote or the end, and answers what it stands for.  `start` is where the text
began and `value` holds, in reverse, what has been read of it. -/
def quotedFrom (start : Cursor) (value : List Char) (c : Cursor) : Reading (List Char × Cursor) :=
  if maxStringLength < c.pos - start.pos then
    start.fail (.tokenTooLong "string literal" maxStringLength)
  else
    match _hc : c.current with
    | none => .ok (value.reverse, c)
    | some '"' => .ok (value.reverse, c)
    | some '\n' => c.fail .lineEndInString
    | some '\r' => c.fail .lineEndInString
    | some '\\' =>
      match _he : escape c with
      | .ok (ch, next) => quotedFrom start (ch :: value) next
      | .error failure => .error failure
    | some ch => quotedFrom start (ch :: value) c.bump
termination_by c.rest.length
decreasing_by
  · exact Cursor.length_lt_of_lt (escape_lt _he)
  · exact Cursor.length_lt_of_lt (Cursor.lt_bump _hc)

/-- Reads text up to a quote or the end: what it stands for. -/
def quoted (c : Cursor) : Reading (List Char × Cursor) :=
  quotedFrom c [] c

/-- The text between quotes never moves back; it may be empty. -/
theorem quotedFrom_le {start c stop : Cursor} {value text : List Char}
    (h : quotedFrom start value c = .ok (text, stop)) : c ≤ stop := by
  fun_induction quotedFrom start value c with
  | case1 | case4 | case5 => exact absurd h fail_ne_ok
  | case2 | case3 =>
    obtain ⟨-, rfl⟩ := Prod.mk.inj (Except.ok.inj h)
    exact Cursor.le_refl _
  | case6 value c _ _ ch next he ih => exact Cursor.le_trans (Cursor.le_of_lt (escape_lt he)) (ih h)
  | case7 => cases h
  | case8 value c _ ch hc _ _ _ _ ih => exact Cursor.le_trans (Cursor.le_bump c) (ih h)

/-- What a text between quotes stands for. -/
def unescape (raw : String) : Except FailureKind String :=
  match quoted (.ofText raw.toList) with
  | .error failure => .error failure.kind
  | .ok (value, stop) =>
    if stop.atEnd then .ok (String.ofList value) else .error .unescapedQuote

/-- How a character is written between quotes. -/
def escapeChar (ch : Char) : List Char :=
  match ch with
  | '\\' => ['\\', '\\']
  | '"' => ['\\', '"']
  | '\n' => ['\\', 'n']
  | '\r' => ['\\', 'u', '0', '0', '0', 'D']
  | ch => [ch]

/-- How a text is written between quotes. -/
def escapeText (value : List Char) : List Char :=
  value.flatMap escapeChar

end Fluent.Grammar
