/-
# Escaped values

Any text at all can stand in a source: escaped, between quotes and in braces it is the value of a
message, and formatting that message gives the text back.

* `checked_ofValue` : an escaped value is read back;
* `parse_quoting` : a line with a string literal in braces is a message with that literal;
* `format_quoting` : such a message is formatted as the value of the literal;
* `format_escaped` : so escaping a value, reading it and formatting it changes nothing.
-/
import Fluent.Proofs.Format.Constants
import Fluent.Proofs.Grammar.Layouts
import Fluent.Proofs.Resource.DeepenedEntry

namespace Fluent

open Grammar

/-- A message whose value is a string literal. -/
def quoting (id : String) (l : StringLiteral) : Message :=
  ⟨⟨id⟩, some [.placeable (.string l)], [], none⟩

/-- The line that is such a message. -/
def quotingLine (id raw : String) : String :=
  id ++ " = \x7b \"" ++ raw ++ "\" \x7d"

/-! ## Reading -/

/-- An escaped value that is not too long is read back. -/
theorem checked_ofValue {value : String}
    (h : utf8Length (StringLiteral.ofValue value).raw.toList ≤ maxStringLength) :
    (StringLiteral.ofValue value).Checked := by
  refine ofRaw_eq_ok_iff.2 ⟨rfl, ?_, h⟩
  rw [StringLiteral.ofValue, String.toList_ofList]
  exact spells_escapeText value.toList

/-- A string literal is read in braces wherever a level is free. -/
theorem reads_string (limit left : Nat) {l : StringLiteral} (hl : l.Checked) :
    Reads ((nested limit (left + 1)).placeable []) (.string l) := by
  have hread : InlineReadAs (nested limit left) (.string l) l.print :=
    inlineExpression_of_layout limit (.string l) hl rfl (Nat.zero_le left)
  have hp := Cursor.passes_of_rest (c := ⟨'{' :: ([] ++ (l.print ++ ([] ++ ['}']))), 0⟩)
    (List.append_nil _).symm
  have hclean := (isString_of_checked hl).oneLine.2
  exact ⟨_, _, by simpa using hclean, hread.placeable nofun blank_nil blank_nil hp⟩

/-- A message with such a value can be read. -/
theorem readable_quoting (limit left : Nat) {id : String} {l : StringLiteral}
    (hid : IsName id.toList) (hl : l.Checked) :
    EntryReadable (nested limit (left + 1)) (.message (quoting id l)) where
  name := hid
  value p hp := by
    obtain rfl := Option.some.inj hp
    exact ⟨true, trivial, .placed (reads_string limit left hl) .nil, rfl⟩
  attributes := nofun
  field := rfl
  comment := rfl

/-- The line is the printed message. -/
theorem entryBody_quoting (id : String) (l : StringLiteral) :
    entryBody (.message (quoting id l)) = (quotingLine id l.raw).toList := by
  simp [entryBody, quoting, quotingLine, printValue, layOut, PatternElement.isMultiline,
    printPattern, printElements, Expression.print, inBraces, StringLiteral.print]

/-- A line with a checked literal in braces is read as one message. -/
theorem parse_quoting {settings : ParserSettings} {id : String} {l : StringLiteral}
    (hid : IsName id.toList) (hl : l.Checked)
    (hsize : settings.maxSourceSize = 0 ∨
      utf8Length (quotingLine id l.raw).toList ≤ settings.maxSourceSize)
    (hnesting : 1 ≤ settings.maxNestingDepth) :
    Resource.parse settings (quotingLine id l.raw).toList = ⟨[.message (quoting id l)]⟩ := by
  obtain ⟨left, hleft⟩ := Nat.exists_eq_add_of_le' hnesting
  have hreadable : EntryReadable (nested settings.maxNestingDepth settings.maxNestingDepth)
      (.message (quoting id l)) := by
    have h := readable_quoting settings.maxNestingDepth left hid hl
    rwa [← hleft] at h
  have hdeep := canonical_nested settings.maxNestingDepth settings.maxNestingDepth
  have hbody := entryBody_quoting id l
  have hclean := hbody ▸ entry_noReturn hdeep hreadable
  have hp : (Cursor.ofText (quotingLine id l.raw).toList).Passes
      (entryBody (.message (quoting id l))) _ :=
    Cursor.passes_of_rest (by rw [hbody, List.append_nil]; rfl)
  -- nothing stands behind the line
  have hend : ValueEnds ⟨[], 0 + utf8Length (entryBody (.message (quoting id l)))⟩ := by
    refine ⟨.inl rfl, ?_⟩
    rw [skipBlank_current_of_blank blank_nil]
    exact nofun
  have hread := entryLine_eq_ok_iff.2
    ⟨_, [], entry_of_passes hdeep hreadable hp hend, .refl _, .inr ⟨rfl, rfl⟩⟩
  have hline : ¬BlankLine (quotingLine id l.raw).toList := by
    obtain ⟨ch, rest, hcons, hch, -⟩ := entryBody_cons hreadable
    exact not_blankLine_of_head (by rw [← hbody, hcons]; rfl) hch
  exact parse_eq_singleton_of_size hsize hclean hline hread blank_nil

/-! ## Formatting -/

/-- A message is found by its name after it was added, if that name was free. -/
theorem message?_add_of_free {catalog : Catalog} {m : Message}
    (hfree : catalog.message? m.id.name = none) :
    (catalog.add ⟨[.message m]⟩).1.message? m.id.name = some m := by
  have hcontains : catalog.messages.contains m.id.name = false := by
    rw [SortedMap.contains]
    exact congrArg Option.isSome hfree
  show (catalog.messages.insertFirst m.id.name m).find? m.id.name = some m
  rw [SortedMap.insertFirst, hcontains, if_neg Bool.false_ne_true, SortedMap.find?_insert,
    if_pos rfl]

/-- A message whose value is a string literal is formatted as the value of the literal, whatever
else the formatter is. -/
theorem format_quoting {formatter : Formatter} {id : String} {l : StringLiteral}
    (hmessage : formatter.catalog.message? id = some (quoting id l))
    (hdepth : 2 ≤ formatter.limit) (args : Arguments) :
    formatter.format id none args = ⟨l.value.toList, []⟩ := by
  have hconstant : Pattern.constant? [.placeable (.string l)] = some l.value.toList :=
    congrArg some (List.append_nil _)
  exact Formatter.format_constant hmessage rfl hconstant hdepth args

/-- **Escaping a value survives the whole engine.**  Let any text be escaped, and let the result be
no longer than a literal may be.  Then the escaped text is that of a literal with this value, and the
line with the literal in braces is a message that can be read: no part of it is junk.  Whoever
formats this message gets the text back, and no error, whatever arguments, locale, functions and
settings there are, as long as two levels of depth are free. -/
theorem format_escaped (value : String) (settings : ParserSettings) {id : String}
    (hid : IsName id.toList)
    (hlength : utf8Length (StringLiteral.ofValue value).raw.toList ≤ maxStringLength)
    (hsize : settings.maxSourceSize = 0 ∨
      utf8Length (quotingLine id (StringLiteral.ofValue value).raw).toList ≤
        settings.maxSourceSize)
    (hnesting : 1 ≤ settings.maxNestingDepth) :
    StringLiteral.ofRaw (StringLiteral.ofValue value).raw = .ok (StringLiteral.ofValue value) ∧
      (Resource.parse settings
        (quotingLine id (StringLiteral.ofValue value).raw).toList).junk = [] ∧
      ∀ (catalog : Catalog) (formatter : Formatter) (args : Arguments),
        catalog.message? id = none →
        formatter.catalog = (catalog.add (Resource.parse settings
          (quotingLine id (StringLiteral.ofValue value).raw).toList)).1 →
        2 ≤ formatter.settings.maxExpressionDepth →
          formatter.format id none args = ⟨value.toList, []⟩ := by
  have hl : (StringLiteral.ofValue value).Checked := checked_ofValue hlength
  rw [parse_quoting hid hl hsize hnesting]
  refine ⟨hl, rfl, fun catalog formatter args hfree hcatalog hdepth => ?_⟩
  have hmessage : formatter.catalog.message? id =
      some (quoting id (StringLiteral.ofValue value)) :=
    hcatalog ▸ message?_add_of_free (m := quoting id (StringLiteral.ofValue value)) hfree
  exact format_quoting hmessage hdepth args

/-- Quotes, a backslash, braces, both line ends and a mark of isolation. -/
def rareText : String :=
  "\x7b\"\\u\"\x7d\r\n\u2068ß"

/-- The line with that text as the value of a message. -/
def rareLine : List Char :=
  "m = \x7b \"\x7b\\\"\\\\u\\\"\x7d\\u000D\\n\u2068ß\" \x7d".toList

/-- A formatter for the line, which is read and formatted with as few levels as can be. -/
def rareFormatter : Formatter where
  catalog := (Catalog.empty.add (Resource.parse { maxNestingDepth := 1 } rareLine)).1
  settings := { maxExpressionDepth := 2 }

/-- All of these characters come back, also where isolation is on. -/
theorem format_escaped_rareText :
    StringLiteral.ofRaw (StringLiteral.ofValue rareText).raw = .ok (StringLiteral.ofValue rareText) ∧
      (quotingLine "m" (StringLiteral.ofValue rareText).raw).toList = rareLine ∧
      (Resource.parse { maxNestingDepth := 1 } rareLine).junk = [] ∧
      rareFormatter.settings.useIsolating = true ∧
      rareFormatter.format "m" none .empty = ⟨rareText.toList, []⟩ := by
  have hline : (quotingLine "m" (StringLiteral.ofValue rareText).raw).toList = rareLine := by
    decide +kernel
  have hid : IsName "m".toList := by decide
  obtain ⟨hraw, hjunk, hformat⟩ := format_escaped rareText { maxNestingDepth := 1 } hid
    (by decide +kernel) (.inr (by decide +kernel)) (Nat.le_refl 1)
  rw [hline] at hjunk hformat
  exact ⟨hraw, hline, hjunk, rfl,
    hformat .empty rareFormatter .empty rfl rfl (Nat.le_refl 2)⟩

end Fluent
