/-
# Values that were written as one text

A program that builds a tree by hand may write any text as the value of a message.  The printed
message is read again, and formatting it gives the text back exactly if no line below the first one
hides, behind spaces, a character that cannot be text at the start of a line, and if no spaces at
the start of these lines are taken for indentation.

* `assigned_writing` : what is read as the value of the printed message;
* `parse_writing` : the printed message is read as one message if the lines are kept;
* `message_of_parse`, `message_of_value` : whatever is read as one message has this value;
* `written_text_survives_iff` : the text survives exactly if its lines are kept.
-/
import Fluent.Proofs.Grammar.WrittenText
import Fluent.Proofs.Resource.ErrorLimit
import Fluent.Proofs.Resource.EscapedValue
import Fluent.Proofs.Resource.WellFormed

namespace Fluent

open Grammar

/-- The text can be written as a value: it is not empty, it starts and ends with what is neither a
space nor a line end, and its lines are empty or hold more than spaces. -/
structure IsWritten (text : List Char) : Prop where
  noReturn : '\r' ∉ text
  head : ∃ ch rest, text = ch :: rest ∧ ch ≠ ' ' ∧ ch ≠ '\n'
  last : text.getLast? ≠ some ' ' ∧ text.getLast? ≠ some '\n'
  lines : ∀ line ∈ splitLines text, line = [] ∨ line.any (· != ' ') = true

/-- A message whose value is one text. -/
def writing (id value : String) : Message :=
  ⟨⟨id⟩, some [.text value], [], none⟩

/-- What the message is printed as, without the line end behind it. -/
def writingBody (id value : String) : List Char :=
  id.toList ++ (' ' :: '=' :: printValue [.text value])

/-- A message with a text for its value is printed as its body with a line feed. -/
theorem print_writing (id value : String) :
    Resource.print ⟨[.message (writing id value)]⟩ = writingBody id value ++ ['\n'] := by
  simp [Resource.print, printEntries, Entry.print, Message.print, printAttached, writing,
    writingBody]

/-! ## Reading the value -/

/-- The characters that are printed as literals need no escape. -/
theorem checked_ofChar {ch : Char} (h : isQuoted true ch = true) :
    (StringLiteral.ofChar ch).Checked := by
  simp only [isQuoted, isSpecialAtLineStart, Bool.true_and, Bool.or_eq_true, beq_iff_eq] at h
  have hplain : escapeText [ch] = [ch] := by
    rcases h with (rfl | rfl) | (rfl | rfl) | rfl <;> decide
  have hvalue : StringLiteral.ofChar ch = .ofValue (String.ofList [ch]) := by
    rw [StringLiteral.ofValue, String.toList_ofList, hplain]
    rfl
  rw [hvalue]
  refine checked_ofValue ?_
  rw [StringLiteral.ofValue, String.toList_ofList, String.toList_ofList, hplain, utf8Length_cons]
  have hsize := Char.utf8Size_le_four ch
  exact Nat.le_trans (Nat.add_le_add_right hsize _) (by decide)

/-- The characters that are printed as literals are read wherever a level is free. -/
theorem readsQuoted_nested (limit left : Nat) : ReadsQuoted (nested limit (left + 1)) := by
  intro ch c stop hch hp
  have hread : InlineReadAs (nested limit left) (.string (.ofChar ch))
      (StringLiteral.print (.ofChar ch)) :=
    inlineExpression_of_layout limit (.string _) (checked_ofChar hch) rfl (Nat.zero_le left)
  have hspace : Blank [' '] := by simp [Blank, isBlank]
  refine hread.placeable (fun _ _ _ h => by cases h) hspace hspace ?_
  rw [StringLiteral.print, StringLiteral.ofChar, String.toList_ofList]
  exact hp

/-- What is read as the value of the printed message. -/
theorem assigned_writing {deep : Nested} (hdeep : ReadsQuoted deep) {id value : String}
    (hid : IsName id.toList) (ht : IsWritten value.toList) {c stop : Cursor}
    (hp : c.Passes (writingBody id value) stop) (hend : PatternEnds stop) :
    ∃ behind p mid, identifier c = .ok (id, behind) ∧ assigned deep behind = .ok (some p, mid) ∧
      PiecesOf (!startsSpecial value.toList) value.toList p.pieces ∧
        (LinesKept (!startsSpecial value.toList) value.toList → mid = stop) := by
  obtain ⟨ch, rest, htext, hspace, hfeed⟩ := ht.head
  have hlines : TextLines value.toList := by
    refine textLines_of_lines ht.last.2 fun line hline hne => ?_
    simpa using (ht.lines line (List.mem_of_mem_tail hline)).resolve_left hne
  obtain ⟨behind, hname, hp⟩ := identifier_of_passes hid hp
  obtain ⟨start, hequals, hp⟩ := start_of_equals hp
  rw [printValue_text] at hp
  have hlast := ht.last.1
  rw [htext] at hp hlines hlast ⊢
  obtain ⟨p, mid, hread, hpieces, hmid⟩ := pattern_layOut hdeep hlines hspace hfeed hlast hp hend
  rw [String.ofList_toList] at hname
  refine ⟨behind, p, mid, hname, ?_, hpieces, hmid⟩
  rw [assigned, hequals]
  exact hread

/-! ## The printed message as a source -/

/-- Where the text goes on, there is an item: what is read first, or junk. -/
theorem itemsFrom_cons (rule : Rule Entry) (limit size errors : Nat) {c : Cursor}
    (hc : c.rest ≠ []) :
    ∃ first rest, itemsFrom rule limit size [] errors c = first :: rest ∧
      (first.entry.isJunk = true ∨ ∃ stop, rule.run c = .ok (first.entry, stop)) := by
  cases hr : rule.run c with
  | ok read =>
    obtain ⟨found, stop⟩ := read
    obtain ⟨rest, hrest⟩ := itemsFrom_append rule limit size [⟨c.pos, stop.pos, found⟩] errors
      stop.skipBlankLines
    exact ⟨_, rest, (itemsFrom_ok hr).trans hrest, .inr ⟨stop, rfl⟩⟩
  | error failure =>
    rw [itemsFrom, dif_neg hc]
    split
    · rename_i h
      exact absurd (h.symm.trans hr) nofun
    · dsimp only
      split
      · exact ⟨_, [], rfl, .inl rfl⟩
      · obtain ⟨rest, hrest⟩ := itemsFrom_append rule limit size [⟨c.pos, _, .junk _⟩] (errors + 1)
          (nextItemStart c).skipBlankLines
        exact ⟨_, rest, hrest, .inl rfl⟩

/-- A source that is read as one message, and starts with no comment, starts with this message. -/
theorem message_of_parse {settings : ParserSettings} {text : List Char} {m : Message}
    (hsize : settings.maxSourceSize = 0 ∨ utf8Length text ≤ settings.maxSourceSize)
    (hclean : '\r' ∉ text) (hline : ¬BlankLine text) (hmark : text.head? ≠ some '#')
    (h : Resource.parse settings text = ⟨[.message m]⟩) :
    ∃ stop, message (nested settings.maxNestingDepth settings.maxNestingDepth) (.ofText text) =
      .ok ({ m with comment := none }, stop) := by
  have hallowed : ¬(settings.maxSourceSize ≠ 0 ∧ settings.maxSourceSize < utf8Length text) := by
    omega
  have hne : (Cursor.ofText text).rest ≠ [] := fun hnil : text = [] => hline (hnil ▸ blankLine_nil)
  rw [Resource.parse, Resource.parseBy, if_neg hallowed, unifyLineEnds_eq_self hclean,
    Rule.ext_run (entryTwice_run settings.maxNestingDepth), items, skipBlankLines_eq_self hline,
    Resource.mk.injEq] at h
  obtain ⟨first, rest, hitems, hfirst⟩ :=
    itemsFrom_cons (entryWithin settings.maxNestingDepth) settings.maxParseErrors
      (utf8Length text) 0 hne
  have hsingle : ∀ item ∈ first :: rest, item.entry.parts = [item.entry] := by
    rw [← hitems]
    refine itemsFrom_forall (P := fun e => e.parts = [e]) (fun _ hread => ?_)
      (fun _ _ => ⟨rfl, rfl⟩) (by simp)
    obtain ⟨mid, -, hentry, -⟩ := entryLine_eq_ok_iff.1 hread
    exact entry_parts hentry
  have hparts := attachComments_parts hsingle
  rw [← hitems, h, hitems, List.flatMap_singleton, List.map_cons, Entry.parts] at hparts
  -- the first item is no junk, so it is what was read first
  obtain ⟨stop, hread⟩ : ∃ stop, (entryWithin settings.maxNestingDepth).run (.ofText text) =
      .ok (first.entry, stop) := by
    refine hfirst.resolve_left fun hjunk => ?_
    cases hc : m.comment <;> rw [hc] at hparts <;> rw [← (List.cons.inj hparts).1] at hjunk <;>
      cases hjunk
  obtain ⟨mid, -, hentry, -⟩ := entryLine_eq_ok_iff.1 hread
  rcases entry_cases hentry with ⟨c, hfound, hc, -⟩ | ⟨t, hfound, -⟩ | ⟨m', hfound, hm'⟩
  · exact absurd hc hmark
  · cases hc : m.comment <;> rw [hc, hfound] at hparts <;> cases (List.cons.inj hparts).1
  · refine ⟨mid, ?_⟩
    cases hc : m.comment with
    | none =>
      rw [hc, hfound] at hparts
      obtain rfl := Entry.message.inj (List.cons.inj hparts).1
      exact hm'
    | some c =>
      rw [hc, hfound] at hparts
      cases (List.cons.inj hparts).1

/-! ## What survives -/

/-- A message without attributes is read from a name and a value. -/
theorem message_of_value {deep : Nested} {c behind stop : Cursor} {id : String} {p : Pattern}
    (hname : identifier c = .ok (id, behind)) (hvalue : assigned deep behind = .ok (some p, stop))
    (hend : stop.skipBlank.current ≠ some '.') :
    message deep c = .ok (⟨⟨id⟩, some p, [], none⟩, stop) := by
  rw [message, hname]
  show (assigned deep behind >>= _) = _
  rw [hvalue]
  show (attributesFrom deep [] stop >>= _) = _
  rw [attributesFrom_eq, if_neg fun h => hend h.2]
  rfl

/-- It is printed without carriage returns, if there is none in the value. -/
theorem noReturn_writing {id value : String} (hid : IsName id.toList)
    (ht : IsWritten value.toList) : '\r' ∉ writingBody id value ++ ['\n'] := by
  have hname := hid.oneLine.2
  have hbody : '\r' ∉ printText false value.toList := fun hmem =>
    (mem_printText hmem).elim ht.noReturn (by decide)
  have hindented : ∀ b, '\r' ∉ indentFrom b (printText false value.toList) := by
    intro b hmem
    rw [indentFrom_eq_indentBy] at hmem
    exact (mem_indentBy hmem).elim hbody (by decide)
  have hvalue : '\r' ∉ printValue [.text value] := by
    rw [printValue_text, layOut]
    split
    · split
      · simpa [indentContinuations] using hindented false
      · simpa [indentLines] using hindented true
    · simpa using hbody
  simp [writingBody, hname, hvalue]

/-- The printed message starts with a letter, so with no blank line and with no comment. -/
theorem head_writing {id : String} (value : String) (hid : IsName id.toList) :
    ∃ ch, (writingBody id value ++ ['\n']).head? = some ch ∧ isIdentifierStart ch = true ∧
      ¬BlankLine (writingBody id value ++ ['\n']) ∧
        (writingBody id value ++ ['\n']).head? ≠ some '#' := by
  obtain ⟨ch, rest, hname, hch⟩ := hid.cons
  have hhead : (writingBody id value ++ ['\n']).head? = some ch := by
    rw [writingBody, hname]
    rfl
  have hblank : isBlank ch = false := by
    have hne : ch ≠ ' ' ∧ ch ≠ '\n' := by
      constructor <;> rintro rfl <;> exact absurd hch (by decide)
    simp [isBlank, hne]
  refine ⟨ch, hhead, hch, not_blankLine_of_head hhead hblank, ?_⟩
  rw [hhead]
  rintro ⟨⟩
  exact absurd hch (by decide)

/-- Of the printed message a value is read that is made of pieces of the text; and nothing but a
message with this value if the lines of the text are kept. -/
theorem parse_writing {settings : ParserSettings} {id value : String} (hid : IsName id.toList)
    (ht : IsWritten value.toList)
    (hsize : settings.maxSourceSize = 0 ∨
      utf8Length (writingBody id value ++ ['\n']) ≤ settings.maxSourceSize)
    (hnesting : 1 ≤ settings.maxNestingDepth) :
    ∃ p, PiecesOf (!startsSpecial value.toList) value.toList p.pieces ∧
      (∀ m, Resource.parse settings (writingBody id value ++ ['\n']) = ⟨[.message m]⟩ →
        m.value = some p) ∧
      (LinesKept (!startsSpecial value.toList) value.toList →
        Resource.parse settings (writingBody id value ++ ['\n']) =
          ⟨[.message ⟨⟨id⟩, some p, [], none⟩]⟩) := by
  obtain ⟨left, hleft⟩ := Nat.exists_eq_add_of_le' hnesting
  have hdeep : ReadsQuoted (nested settings.maxNestingDepth settings.maxNestingDepth) := by
    have h := readsQuoted_nested settings.maxNestingDepth left
    rwa [← hleft] at h
  have hclean := noReturn_writing hid ht
  obtain ⟨ch, hhead, hch, hline, hmark⟩ := head_writing value hid
  -- behind the value only the line end is left
  have hp : (Cursor.ofText (writingBody id value ++ ['\n'])).Passes (writingBody id value)
      ⟨['\n'], 0 + utf8Length (writingBody id value)⟩ := ⟨rfl, rfl⟩
  have hblank : Blank ['\n'] := by simp [Blank, isBlank]
  have hnone :
      (Cursor.mk ['\n'] (0 + utf8Length (writingBody id value))).skipBlank.current = none :=
    skipBlank_current_of_blank hblank
  have hend : PatternEnds ⟨['\n'], 0 + utf8Length (writingBody id value)⟩ :=
    patternEnds_of_skipBlank rfl fun x hx => absurd (hnone.symm.trans hx) (by simp)
  obtain ⟨behind, p, mid, hidentifier, hassigned, hpieces, hmid⟩ :=
    assigned_writing hdeep hid ht hp hend
  refine ⟨p, hpieces, fun m hm => ?_, fun hkept => ?_⟩
  · obtain ⟨stop, hmessage⟩ := message_of_parse hsize hclean hline hmark hm
    obtain ⟨behind', start, hidentifier', hassigned', -⟩ := message_cases hmessage
    rw [hidentifier] at hidentifier'
    obtain ⟨-, rfl⟩ := Prod.mk.inj (Except.ok.inj hidentifier')
    rw [hassigned] at hassigned'
    exact (Prod.mk.inj (Except.ok.inj hassigned')).1.symm
  · obtain rfl := hmid hkept
    have hmessage := message_of_value hidentifier hassigned (by rw [hnone]; simp)
    have hentry :=
      entry_of_message (c := .ofText (writingBody id value ++ ['\n'])) hhead hch hmessage
    have hlast : (Cursor.mk ['\n'] (0 + utf8Length (writingBody id value))).Passes ['\n'] ⟨[], _⟩ :=
      Cursor.passes_of_rest rfl
    exact parse_eq_singleton_of_size hsize hclean hline
      (entryLine_eq_ok_iff.2 ⟨_, ['\n'], hentry, hlast, .inl rfl⟩) blank_nil

/-! ## Formatting -/

/-- A pattern of single pieces is constant: it stands for the characters of its pieces. -/
theorem constant?_of_single {p : Pattern} (h : ∀ x ∈ p.pieces, x.IsSingle) :
    p.constant? = some (p.pieces.flatMap Piece.chars) := by
  induction p with
  | nil => rfl
  | cons element rest ih =>
    rw [Pattern.pieces_cons] at h ⊢
    have hrest := ih fun x hx => h x (List.mem_append_right _ hx)
    refine Pattern.constant?_cons_eq_some.2 ⟨element.pieces.flatMap Piece.chars, ?_, _, hrest,
      List.flatMap_append.symm⟩
    cases element with
    | text value =>
      rw [PatternElement.pieces, flatMap_chars_map]
      rfl
    | placeable e =>
      have hsingle := h (.placed e) (List.mem_append_left _ (List.mem_singleton.2 rfl))
      cases hsingle with
      | quoted ch =>
        rw [PatternElement.pieces, List.flatMap_singleton]
        rfl

/-- **A text that was written as a value survives exactly if its lines are kept.**  Let a message
whose value is a single text be printed: a text that is not empty, has no carriage return, starts
and ends with neither a space nor a line end, and has no lines of spaces only.  With limits that are
wide enough the printed source is read as one message of the same name, and no junk, and formatting
that message gives the text back without a problem, exactly if the lines below the first one are
kept: no such line starts with spaces and a bracket, a star or a point behind them; and if the text
itself starts with one of these, then the first of these lines that is not empty starts with no
space.  The locale, the functions, the arguments and the isolation of placeables do not matter. -/
theorem written_text_survives_iff {id value : String} (hid : IsName id.toList)
    (ht : IsWritten value.toList) {settings : ParserSettings} {source : List Char}
    (hsource : source = Resource.print ⟨[.message (writing id value)]⟩)
    (hsize : settings.maxSourceSize = 0 ∨ utf8Length source ≤ settings.maxSourceSize)
    (hnesting : 1 ≤ settings.maxNestingDepth) {catalog : Catalog}
    (hfree : catalog.message? id = none) {formatter : Formatter}
    (hcatalog : formatter.catalog = (catalog.add (Resource.parse settings source)).1)
    (hdepth : 2 ≤ formatter.limit) (args : Arguments) :
    (∃ m, Resource.parse settings source = ⟨[.message m]⟩ ∧ m.id.name = id ∧
        formatter.format id none args = ⟨value.toList, []⟩) ↔
      LinesKept (!startsSpecial value.toList) value.toList := by
  subst hsource
  rw [print_writing] at *
  obtain ⟨p, hpieces, hvalue, hkept⟩ := parse_writing hid ht hsize hnesting
  have hconstant := constant?_of_single hpieces.single
  -- whatever message is read is formatted as the characters of the pieces
  have hformat : ∀ m, Resource.parse settings (writingBody id value ++ ['\n']) = ⟨[.message m]⟩ →
      m.id.name = id →
        formatter.format id none args = ⟨p.pieces.flatMap Piece.chars, []⟩ := by
    intro m hm hname
    have hmessage : formatter.catalog.message? id = some m := by
      rw [hcatalog, hm, ← hname]
      exact message?_add_of_free (hname ▸ hfree)
    exact Formatter.format_constant hmessage (hvalue m hm) hconstant hdepth args
  rw [← hpieces.chars_eq_iff]
  constructor
  · rintro ⟨m, hm, hname, hresult⟩
    exact (Formatted.mk.inj ((hformat m hm hname).symm.trans hresult)).1
  · intro hchars
    have hm := hkept (hpieces.chars_eq_iff.1 hchars)
    exact ⟨_, hm, rfl, hchars ▸ hformat _ hm rfl⟩

/-- A text with braces, a bracket at the start of a line, an empty line and spaces in front of the
last line. -/
def layeredText : String :=
  "a \x7bb\x7d\n[c\n\n  d"

/-- The source that the text is printed as. -/
def layeredSource : List Char :=
  "m =\n    a \x7b \"\x7b\" \x7db\x7b \"\x7d\" \x7d\n    \x7b \"[\" \x7dc\n\n      d\n".toList

/-- A formatter for the source, which is read and formatted with as few levels as can be. -/
def layeredFormatter : Formatter where
  catalog := (Catalog.empty.add (Resource.parse { maxNestingDepth := 1 } layeredSource)).1
  settings := { maxExpressionDepth := 2, useIsolating := false }

/-- All of it comes back. -/
theorem written_text_survives_layered :
    Resource.print ⟨[.message (writing "m" layeredText)]⟩ = layeredSource ∧
      ∃ m, Resource.parse { maxNestingDepth := 1 } layeredSource = ⟨[.message m]⟩ ∧
        m.id.name = "m" ∧
          layeredFormatter.format "m" none .empty = ⟨layeredText.toList, []⟩ := by
  have hid : IsName "m".toList := by decide
  have ht : IsWritten layeredText.toList :=
    { noReturn := by decide +kernel
      head := ⟨'a', _, rfl, by decide, by decide⟩
      last := by decide +kernel
      lines := by decide +kernel }
  have hsource : Resource.print ⟨[.message (writing "m" layeredText)]⟩ = layeredSource := by
    decide +kernel
  have hsize : utf8Length layeredSource ≤
      ({ maxNestingDepth := 1 } : ParserSettings).maxSourceSize := by decide +kernel
  have hfree : Catalog.empty.message? "m" = none := rfl
  have hcatalog : layeredFormatter.catalog =
      (Catalog.empty.add (Resource.parse { maxNestingDepth := 1 } layeredSource)).1 := rfl
  have hkept : LinesKept (!startsSpecial layeredText.toList) layeredText.toList := by
    decide +kernel
  exact ⟨hsource, (written_text_survives_iff hid ht hsource.symm (.inr hsize) (Nat.le_refl 1) hfree
    hcatalog (Nat.le_refl 2) .empty).2 hkept⟩

/-- A bracket that stands behind spaces. -/
def hiddenText : String :=
  "a\n  [b"

/-- The source that the text is printed as. -/
def hiddenSource : List Char :=
  "m =\n    a\n      [b\n".toList

/-- A formatter for the source. -/
def hiddenFormatter : Formatter where
  catalog := (Catalog.empty.add (Resource.parse {} hiddenSource)).1
  settings := { useIsolating := false }

/-- A bracket is printed as a literal at the start of a line, but not behind spaces: there it ends
the pattern, so that its line becomes junk and is lost. -/
theorem hidden_bracket_lost :
    IsWritten hiddenText.toList ∧
      Resource.print ⟨[.message (writing "m" hiddenText)]⟩ = hiddenSource ∧
      (Resource.parse {} hiddenSource).junk.map Junk.content = ["      [b\n"] ∧
      (hiddenFormatter.format "m").text = ['a'] := by
  refine ⟨?_, by decide +kernel, by decide +kernel, by decide +kernel⟩
  exact
    { noReturn := by decide +kernel
      head := ⟨'a', _, rfl, by decide, by decide⟩
      last := by decide +kernel
      lines := by decide +kernel }

end Fluent
