/-
# Reading the lines of a pattern

What is read as a pattern consists of lines that can be read, and such lines are read from wherever
they stand, however far they are indented.

* `patternFrom_ok`, `pattern_ok` : what was read as a pattern;
* `patternFrom_pieces` : indented lines are read piece by piece.
-/
import Fluent.Proofs.Grammar.Loops
import Fluent.Proofs.Grammar.PatternLines

namespace Fluent

/-- A character that is not in a text is not in what is left of it. -/
theorem Cursor.not_mem_of_le {a b : Cursor} (h : a ≤ b) {ch : Char} (hch : ch ∉ a.rest) :
    ch ∉ b.rest := by
  obtain ⟨text, hrest, -⟩ := h
  rw [hrest] at hch
  exact fun hmem => hch (List.mem_append_right _ hmem)

namespace Grammar

/-- The rule answers `a` in some text without carriage returns. -/
def Reads {α : Type} (rule : Rule α) (a : α) : Prop :=
  ∃ c stop, '\r' ∉ c.rest ∧ rule.run c = .ok (a, stop)

/-! ## Continuations -/

/-- A pattern may end here: the text ends, or the line ends and no line continues it. -/
def PatternEnds (c : Cursor) : Prop :=
  c.current = none ∨ c.current = some '\n' ∧ continuation? c = none

/-- A line that continues a pattern is indented, and its content may start a line. -/
theorem continuationFrom?_ok {blankLines : Nat} {line : Cursor} {next : Continuation}
    (h : continuationFrom? blankLines line = some next) :
    0 < next.indent ∧ ∃ ch, next.resume.current = some ch ∧ ch ≠ ' ' ∧ ch ≠ '\n' ∧
      endsPattern ch = false := by
  fun_induction continuationFrom? blankLines line with
  | case1 | case3 => cases h
  | case2 _ _ _ ih => exact ih h
  | case4 _ line ch hfeed hc indent hind =>
    obtain rfl := Option.some.inj h
    rw [Bool.or_eq_true, decide_eq_true_eq] at hind
    refine ⟨Nat.pos_of_ne_zero fun h => hind (.inl h), ch, hc, ?_, hfeed, ?_⟩
    · rintro rfl
      have := stops_dropWhile (· == ' ') line.rest ' ' hc
      exact absurd this (by decide)
    · cases he : endsPattern ch with
      | false => rfl
      | true => exact absurd (.inr he) hind

/-! ## What was read -/

/-- The first piece is the one that stands at the cursor. -/
def HeadAt (c : Cursor) (ps : List Piece) : Prop :=
  ∀ ch, c.current = some ch → ch ≠ '\n' →
    (∃ qs, ps = .char ch :: qs) ∨ ch = '{' ∧ ∃ e qs, ps = .placed e :: qs

/-- A character that may start a line of a pattern starts one where the head of a pattern is. -/
theorem HeadAt.startsLine {c : Cursor} {ps : List Piece} (h : HeadAt c ps) {ch : Char}
    (hc : c.current = some ch) (hspace : ch ≠ ' ') (hfeed : ch ≠ '\n')
    (hends : endsPattern ch = false) : StartsLine ps := by
  rcases h ch hc hfeed with ⟨qs, rfl⟩ | ⟨-, e, qs, rfl⟩
  · exact ⟨hspace, hfeed, hends⟩
  · trivial

/-- The pieces of a line break are pushed as the text of the continuation. -/
theorem pushAll_break (b : PatternBuilder) (next : Continuation) (common : Nat) :
    b.pushAll (breakPieces next.blankLines (next.indent - common)) =
      b.pushText (continuationText next common) :=
  PatternBuilder.pushAll_chars b _

/-- What was read as the rest of a pattern. -/
theorem patternFrom_ok {deep : Nested} {b : PatternBuilder} {common : Option Nat}
    {c stop : Cursor} {p : Option Pattern} (h : patternFrom deep b common c = .ok (p, stop))
    (hclean : '\r' ∉ c.rest) (hb : b.isEmpty = true → c.current ≠ some '\n') :
    ∃ ps, p = (b.pushAll ps).finish ∧ HeadAt c ps ∧ PatternEnds stop ∧
      PatternLines (Reads (deep.placeable [])) common.isSome ps := by
  -- each round of the loop puts its pieces in front of those that the rounds after it read
  fun_induction patternFrom deep b common c with
  | case1 b common c hc =>
    obtain ⟨rfl, rfl⟩ := Prod.mk.inj (Except.ok.inj h)
    exact ⟨[], rfl, fun ch h => absurd (hc.symm.trans h) (by simp), .inl hc, .nil⟩
  | case2 => cases h
  | case3 b common c e next hp hc ih =>
    have hle := Cursor.le_of_lt ((deep.placeable []).advances hp)
    obtain ⟨ps, hps, -, hend, hlines⟩ := ih h (Cursor.not_mem_of_le hle hclean)
      (by simp [PatternBuilder.pushPlaceable, PatternBuilder.isEmpty])
    refine ⟨.placed e :: ps, hps, fun ch h _ => ?_, hend, .placed ⟨c, next, hclean, hp⟩ hlines⟩
    obtain rfl := Option.some.inj (hc.symm.trans h)
    exact .inr ⟨rfl, e, ps, rfl⟩
  | case4 => exact absurd h fail_ne_ok
  | case5 b common c hn hc =>
    obtain ⟨rfl, rfl⟩ := Prod.mk.inj (Except.ok.inj h)
    refine ⟨[], rfl, fun ch h hfeed => ?_, .inr ⟨hc, hn⟩, .nil⟩
    exact absurd (Option.some.inj (hc.symm.trans h)).symm hfeed
  | case6 b common c next hn shared extended hc hx hy ih =>
    -- a pattern that starts on a line of its own is not read from here, so something stands in
    -- front of the break
    have hne : b.isEmpty = false := by
      cases hb' : b.isEmpty with
      | false => rfl
      | true => exact absurd hc (hb hb')
    obtain ⟨-, ch, hch, hspace, hfeed, hends⟩ := continuationFrom?_ok hn
    have hle := Cursor.le_of_lt (continuation?_lt hc hn)
    obtain ⟨ps, hps, hhead, hend, hlines⟩ := ih h (Cursor.not_mem_of_le hle hclean) (by
      rw [hch]
      exact fun _ h => hfeed (Option.some.inj h))
    refine ⟨breakPieces next.blankLines (next.indent - shared) ++ ps, ?_, ?_, hend, ?_⟩
    · rw [hps, PatternBuilder.pushAll_append, pushAll_break]
      simp only [extended, hne]
      rfl
    · exact fun ch h hfeed => absurd (Option.some.inj (hc.symm.trans h)).symm hfeed
    · refine .break (fun hnone => ?_) (hhead.startsLine hch hspace hfeed hends) hlines
      -- the first break sets the common indentation, so nothing exceeds it there
      have hshared : shared = next.indent := by
        cases common with
        | none => rfl
        | some n => simp at hnone
      rw [hshared, Nat.sub_self]
  | case7 b common c ch hc hopen hclose hline ih =>
    have htext := isText_of_ne hopen hclose hline
    have hp := Cursor.passes_skipWhile isText c
    -- a run of text is read at once, but its characters are pieces of their own
    have hlead : ∃ run, c.leading isText = ch :: run := by
      have hrest : c.rest.head? = some ch := hc
      rw [Cursor.leading]
      cases hr : c.rest with
      | nil => simp [hr] at hrest
      | cons x r =>
        rw [hr] at hrest
        obtain rfl := Option.some.inj hrest
        exact ⟨_, List.takeWhile_cons_of_pos htext⟩
    obtain ⟨run, hrun⟩ := hlead
    have hempty : (b.pushText (c.leading isText)).isEmpty = false := by
      simp [hrun, PatternBuilder.pushText, PatternBuilder.isEmpty]
    obtain ⟨ps, hps, -, hend, hlines⟩ := ih h (Cursor.not_mem_of_le hp.le hclean)
      (fun h => absurd (hempty.symm.trans h) (by decide))
    refine ⟨(c.leading isText).map .char ++ ps, ?_, fun x h _ => ?_, hend, ?_⟩
    · rw [hps, PatternBuilder.pushAll_append, PatternBuilder.pushAll_chars]
    · obtain rfl := Option.some.inj (hc.symm.trans h)
      exact .inl ⟨run.map .char ++ ps, by rw [hrun]; rfl⟩
    · refine .chars (Cursor.all_leading isText c) (fun hmem => hclean ?_) hlines
      rw [hp.1]
      exact List.mem_append_left _ hmem

/-! ## Whole patterns -/

/-- How a pattern may begin: with something that may start a line, or, where the indentation is not
fixed, with a character that may not. -/
def Opening : Bool → List Piece → Prop
  | true, ps => StartsLine ps
  | false, ps => ∃ ch qs, ps = .char ch :: qs ∧ isSpecialAtLineStart ch = true

/-- A space at the end does not matter to how a pattern opens. -/
theorem opening_of_snoc {fixed : Bool} {ps : List Piece}
    (h : Opening fixed (ps ++ [.char ' '])) : Opening fixed ps := by
  cases fixed with
  | true => exact PatternLines.startsLine_of_snoc h
  | false =>
    obtain ⟨ch, qs, heq, hch⟩ := h
    cases ps with
    | nil =>
      obtain ⟨hspace, -⟩ := List.cons.inj heq
      obtain rfl := Piece.char.inj hspace
      exact absurd hch (by decide)
    | cons x ps =>
      obtain ⟨rfl, -⟩ := List.cons.inj heq
      exact ⟨ch, ps, rfl, hch⟩

/-- A pattern whose lines can be read; `fixed` says whether the indentation of its continuation
lines may be fixed before any of them. -/
structure ReadablePattern (P : Expression → Prop) (fixed : Bool) (p : Pattern) : Prop where
  opening : Opening fixed p.pieces
  lines : PatternLines P fixed p.pieces
  finish : (PatternBuilder.empty.pushAll p.pieces).finish = some p

/-- Pieces that can be read make a pattern, without the spaces at their end. -/
theorem exists_readablePattern {P : Expression → Prop} {fixed : Bool} {ps : List Piece}
    (hopen : Opening fixed ps) (hlines : PatternLines P fixed ps) :
    ∃ p, (PatternBuilder.empty.pushAll ps).finish = some p ∧ ReadablePattern P fixed p := by
  induction hn : ps.length generalizing ps with
  | zero =>
    rw [List.length_eq_zero_iff.1 hn] at hopen
    cases fixed with
    | true => exact absurd hopen (by simp [Opening, StartsLine])
    | false => exact absurd hopen (by simp [Opening])
  | succ n ih =>
    have hne : ps ≠ [] := by
      rintro rfl
      simp at hn
    -- spaces at the end are dropped one by one
    by_cases hlast : ps.getLast? = some (.char ' ')
    · obtain ⟨init, rfl⟩ := List.getLast?_eq_some_iff.1 hlast
      rw [PatternBuilder.finish_pushAll_space]
      exact ih (opening_of_snoc hopen) hlines.trim (by simpa using hn)
    · obtain ⟨p, hp, hpieces⟩ := PatternBuilder.finish_pushAll hne hlast
      exact ⟨p, hp, hpieces ▸ hopen, hpieces ▸ hlines, by rw [hpieces, hp]⟩

/-- What was read as a pattern. -/
theorem pattern_ok {deep : Nested} {c stop : Cursor} {found : Option Pattern}
    (h : pattern deep c = .ok (found, stop)) (hclean : '\r' ∉ c.rest)
    (hspace : c.current ≠ some ' ') :
    PatternEnds stop ∧ (found = none ∧ c = stop ∨
      ∃ p fixed, found = some p ∧ ReadablePattern (Reads (deep.placeable [])) fixed p) := by
  by_cases hfeed : c.current = some '\n'
  -- the value starts on a line of its own, whose indentation is the common one
  · rw [pattern, patternFrom_eq, hfeed] at h
    dsimp only at h
    cases hn : continuation? c with
    | none =>
      rw [hn] at h
      obtain ⟨rfl, rfl⟩ := Prod.mk.inj (Except.ok.inj h)
      exact ⟨.inr ⟨hfeed, hn⟩, .inl ⟨rfl, rfl⟩⟩
    | some next =>
      rw [hn] at h
      obtain ⟨-, ch, hch, hsp, hfd, hends⟩ := continuationFrom?_ok hn
      have hle := Cursor.le_of_lt (continuation?_lt hfeed hn)
      obtain ⟨ps, hps, hhead, hend, hlines⟩ := patternFrom_ok h (Cursor.not_mem_of_le hle hclean)
        fun _ h => hfd (Option.some.inj (hch.symm.trans h))
      have hstart : Opening true ps := hhead.startsLine hch hsp hfd hends
      obtain ⟨p, hp, hread⟩ := exists_readablePattern hstart hlines
      exact ⟨hend, .inr ⟨p, true, hps.trans hp, hread⟩⟩
  · obtain ⟨ps, hps, hhead, hend, hlines⟩ := patternFrom_ok h hclean fun _ => hfeed
    refine ⟨hend, ?_⟩
    cases hc : c.current with
    | none =>
      rw [pattern, patternFrom_eq, hc] at h
      obtain ⟨rfl, rfl⟩ := Prod.mk.inj (Except.ok.inj h)
      exact .inl ⟨rfl, rfl⟩
    | some ch =>
      have hfd : ch ≠ '\n' := fun h => hfeed (hc.trans (congrArg some h))
      have hsp : ch ≠ ' ' := fun h => hspace (hc.trans (congrArg some h))
      have hopen : ∃ fixed, Opening fixed ps ∧
          PatternLines (Reads (deep.placeable [])) fixed ps := by
        -- what may not start a line leaves the indentation to be set by the first continuation line
        by_cases hends : endsPattern ch = true
        · rcases hhead ch hc hfd with ⟨qs, rfl⟩ | ⟨rfl, -⟩
          · refine ⟨false, ⟨ch, qs, rfl, ?_⟩, hlines⟩
            -- a closing brace is no text, so it cannot be the first character
            have htext := hlines.isText_head hfd
            simp only [endsPattern, Bool.or_eq_true] at hends
            rcases hends with hspecial | hbrace
            · simpa [isSpecialAtLineStart] using hspecial
            · rw [eq_of_beq hbrace] at htext
              exact absurd htext (by decide)
          · exact absurd hends (by decide)
        · exact ⟨true, hhead.startsLine hc hsp hfd (by simpa using hends), hlines.fix⟩
      obtain ⟨fixed, hopen, hlines⟩ := hopen
      obtain ⟨p, hp, hread⟩ := exists_readablePattern hopen hlines
      exact .inr ⟨p, fixed, hps.trans hp, hread⟩

/-! ## What is read again -/

/-- The rule answers `a` wherever the text stands, however far its lines are indented; the text
holds no carriage returns. -/
structure PrintsBack {α : Type} (rule : Rule α) (a : α) (text : List Char) : Prop where
  noReturn : '\r' ∉ text
  reads : ∀ n {c stop : Cursor}, c.Passes (indentBy n false text) stop → rule.run c = .ok (a, stop)

/-- The search for a continuation passes empty lines and finds an indented one. -/
theorem continuationFrom?_of_passes {indent : Nat} (hindent : 0 < indent) {mid : Cursor} {ch : Char}
    (hch : mid.current = some ch) (hspace : ch ≠ ' ') (hfeed : ch ≠ '\n')
    (hends : endsPattern ch = false) {more before : Nat} {line : Cursor}
    (hp : line.Passes (List.replicate more '\n' ++ List.replicate indent ' ') mid) :
    continuationFrom? before line = some ⟨before + more, indent, mid⟩ := by
  -- the induction is on the empty lines that are still in front of the indented one
  induction more generalizing before line with
  | zero =>
    have hspaces := spaces_replicate indent
    have hstop : Stops (· == ' ') mid.rest :=
      Cursor.stops_of_current hch (by simpa using hspace)
    have hskip : line.skipBlankInline = mid := Cursor.skipWhile_eq_iff.2 ⟨_, hp, hspaces, hstop⟩
    have hlead : line.leading (· == ' ') = List.replicate indent ' ' :=
      Cursor.leading_eq hp hspaces hstop
    rw [continuationFrom?_eq, hskip, hch, hlead, List.length_replicate]
    dsimp only
    rw [if_neg hfeed, hends, Bool.or_false, decide_eq_false (by omega)]
    rfl
  | succ more ih =>
    rw [List.replicate_succ, List.cons_append] at hp
    obtain ⟨next, hfirst, hrest⟩ := hp.uncons
    have hskip : line.skipBlankInline = line :=
      Cursor.skipWhile_of_stops (Cursor.stops_of_current hfirst.current_cons (by decide))
    rw [continuationFrom?_eq, hskip, hfirst.current_cons, Cursor.bump_eq hfirst]
    dsimp only
    rw [if_pos rfl, ih hrest]
    congr 2
    omega

/-- Text is any character but the two braces and the line feed. -/
theorem isText_iff {ch : Char} : isText ch = true ↔ ch ≠ '{' ∧ ch ≠ '}' ∧ ch ≠ '\n' := by
  simp [isText, and_assoc]

/-- The text at the cursor may be read first. -/
theorem patternFrom_leading (deep : Nested) (b : PatternBuilder) (common : Option Nat)
    (c : Cursor) :
    patternFrom deep b common c =
      patternFrom deep (b.pushText (c.leading isText)) common (c.skipWhile isText) := by
  by_cases hstop : Stops isText c.rest
  · have hlead : c.leading isText = [] := takeWhile_of_stops hstop
    have hskip : c.skipWhile isText = c := Cursor.skipWhile_of_stops hstop
    rw [hlead, hskip]
    rfl
  · obtain ⟨ch, hc, htext⟩ : ∃ ch, c.current = some ch ∧ isText ch = true := by
      simpa [Stops, Cursor.current] using hstop
    obtain ⟨hopen, hclose, hline⟩ := isText_iff.1 htext
    rw [patternFrom_eq, hc]
    dsimp only
    rw [if_neg hopen, if_neg hclose, if_neg hline]

/-- A character of a text may be read by itself. -/
theorem patternFrom_char {deep : Nested} {b : PatternBuilder} {common : Option Nat}
    {c mid : Cursor} {ch : Char} (htext : isText ch = true) (hp : c.Passes [ch] mid) :
    patternFrom deep b common c = patternFrom deep (b.push (.char ch)) common mid := by
  have hlead : c.leading isText = ch :: mid.leading isText := by
    rw [Cursor.leading, hp.1]
    exact List.takeWhile_cons_of_pos htext
  have hskip : c.skipWhile isText = mid.skipWhile isText := by
    refine Cursor.skipWhile_eq_iff.2
      ⟨_, hp.append (Cursor.passes_skipWhile isText mid), ?_, stops_dropWhile _ _⟩
    intro x hx
    rcases List.mem_cons.1 hx with rfl | hx
    · exact htext
    · exact Cursor.all_leading isText mid x hx
  rw [patternFrom_leading, patternFrom_leading deep _ common mid, hlead, hskip]
  simp [PatternBuilder.push, PatternBuilder.pushText]

/-- Where a pattern ends, what has been read of it is the pattern. -/
theorem patternFrom_of_ends (deep : Nested) (b : PatternBuilder) (common : Option Nat)
    {c : Cursor} (hend : PatternEnds c) : patternFrom deep b common c = .ok (b.finish, c) := by
  rw [patternFrom_eq]
  rcases hend with hc | ⟨hc, hnone⟩
  · rw [hc]
  · rw [hc]
    dsimp only
    rw [if_neg (by decide), if_neg (by decide), if_pos rfl, hnone]

/-- A placeable is read as an element of its own. -/
theorem patternFrom_placeable {deep : Nested} {b : PatternBuilder} {common : Option Nat}
    {c mid : Cursor} {e : Expression} (hc : c.current = some '{')
    (hread : (deep.placeable []).run c = .ok (e, mid)) :
    patternFrom deep b common c = patternFrom deep (b.pushPlaceable e) common mid := by
  rw [patternFrom_eq, hc]
  dsimp only
  rw [if_pos rfl, hread]
  rfl

/-- A line that continues a pattern is read up to its first character that is not a space. -/
theorem patternFrom_line (deep : Nested) (b : PatternBuilder) (common : Option Nat) {c : Cursor}
    {next : Continuation} (hc : c.current = some '\n') (hnext : continuation? c = some next) :
    patternFrom deep b common c =
      patternFrom deep
        (if b.isEmpty then b
          else b.pushText (continuationText next (common.getD next.indent)))
        (some (common.getD next.indent)) next.resume := by
  rw [patternFrom_eq, hc]
  dsimp only
  rw [if_neg (by decide), if_neg (by decide), if_pos rfl, hnext]

/-- After a line break a pattern is not empty. -/
theorem isEmpty_pushAll_break (b : PatternBuilder) (blankLines extra : Nat) :
    (b.pushAll (breakPieces blankLines extra)).isEmpty = false := by
  rw [breakPieces, PatternBuilder.pushAll_chars]
  simp [PatternBuilder.pushText, PatternBuilder.isEmpty]

/-- A line break and the indentation of a line that may continue the pattern are read as the break
and the spaces that exceed the common indentation; the first break fixes that. -/
theorem patternFrom_break (deep : Nested) {b : PatternBuilder} (hb : b.isEmpty = false)
    (common : Option Nat) {blankLines indent : Nat} (hindent : 0 < indent) {c mid : Cursor}
    {ch : Char}
    (hp : c.Passes (List.replicate (blankLines + 1) '\n' ++ List.replicate indent ' ') mid)
    (hch : mid.current = some ch) (hspace : ch ≠ ' ') (hfeed : ch ≠ '\n')
    (hends : endsPattern ch = false) :
    patternFrom deep b common c =
      patternFrom deep (b.pushAll (breakPieces blankLines (indent - common.getD indent)))
        (some (common.getD indent)) mid := by
  rw [List.replicate_succ, List.cons_append] at hp
  obtain ⟨line, hfirst, hline⟩ := hp.uncons
  have hnext : continuation? c = some ⟨blankLines, indent, mid⟩ := by
    rw [continuation?, Cursor.bump_eq hfirst,
      continuationFrom?_of_passes hindent hch hspace hfeed hends hline, Nat.zero_add]
  rw [patternFrom_line deep b common hp.current_cons hnext, hb, if_neg (by decide),
    ← pushAll_break]

/-- Behind line ends the spaces that a line starts with follow the indentation. -/
theorem indentBy_lineStart (n blankLines extra : Nat) {ch : Char} (hfeed : ch ≠ '\n')
    (text : List Char) :
    indentBy n false
        ((List.replicate (blankLines + 1) '\n' ++ List.replicate extra ' ') ++ ch :: text) =
      (List.replicate (blankLines + 1) '\n' ++ List.replicate (n + extra) ' ') ++
        indentBy n false (ch :: text) := by
  -- no indentation goes into empty lines
  have hfeeds : ∀ k atLineStart, indentBy n atLineStart (List.replicate k '\n') =
      List.replicate k '\n' := by
    intro k
    induction k with
    | zero => exact fun _ => rfl
    | succ k ih =>
      intro atLineStart
      rw [List.replicate_succ, indentBy_feed, ih]
  -- on the line itself it stands before the spaces that are kept
  have hline : indentBy n true (List.replicate extra ' ' ++ ch :: text) =
      List.replicate (n + extra) ' ' ++ indentBy n false (ch :: text) := by
    cases extra with
    | zero => rw [List.replicate_zero, List.nil_append, indentBy_true_cons n hfeed, Nat.add_zero]
    | succ extra =>
      have hspaces : indentBy n false (List.replicate (extra + 1) ' ') =
          List.replicate (extra + 1) ' ' :=
        indentBy_of_not_mem n (by simp)
      have hends : endsLine false (List.replicate (extra + 1) ' ') = false :=
        endsLine_of_not_mem (by simp)
      have hfirst : indentBy n true (List.replicate (extra + 1) ' ' ++ ch :: text) =
          List.replicate n ' ' ++
            indentBy n false (List.replicate (extra + 1) ' ' ++ ch :: text) := by
        rw [List.replicate_succ, List.cons_append, indentBy_true_cons n (by decide)]
      rw [hfirst, indentBy_append, hspaces, hends, ← List.append_assoc,
        List.replicate_append_replicate]
  rw [List.append_assoc, indentBy_append, hfeeds, (printText_feeds false blankLines).2, hline,
    List.append_assoc]

/-- Behind a line break the spaces that exceed the common indentation follow the indentation. -/
theorem indentBy_break (n blankLines extra : Nat) {ps : List Piece} (h : StartsLine ps) :
    indentBy n false (printPieces (breakPieces blankLines extra ++ ps)) =
      (List.replicate (blankLines + 1) '\n' ++ List.replicate (n + extra) ' ') ++
        indentBy n false (printPieces ps) := by
  obtain ⟨ch, text, htext, -, hfeed, -⟩ := printPieces_of_startsLine h
  rw [breakPieces, printPieces_chars, htext, indentBy_lineStart n blankLines extra hfeed]

/-- Lines that can be read are read piece by piece, however far they are indented. -/
theorem patternFrom_pieces {deep : Nested} {P : Expression → Prop} {n : Nat}
    (hP : ∀ e, P e → PrintsBack (deep.placeable []) e (e.print true)) {fixed : Bool}
    {ps : List Piece} (h : PatternLines P fixed ps) (hn : .char '\n' ∈ ps → 0 < n)
    {b : PatternBuilder} {c stop : Cursor} (hb : b.isEmpty = true → ps.head? ≠ some (.char '\n'))
    (hp : c.Passes (indentBy n false (printPieces ps)) stop) (hend : PatternEnds stop) :
    patternFrom deep b (if fixed then some n else none) c = .ok ((b.pushAll ps).finish, stop) := by
  -- the induction is on the pieces that are left, for whatever the builder holds of those before
  induction h generalizing b c with
  | nil =>
    obtain rfl := hp.eq_of_nil
    exact patternFrom_of_ends deep b _ hend
  | @char fixed ch ps htext _ _ ih =>
    have hfeed := (isText_iff.1 htext).2.2
    have htail : indentBy n false (printPieces (.char ch :: ps)) =
        [ch] ++ indentBy n false (printPieces ps) := indentBy_cons n hfeed _
    rw [htail] at hp
    obtain ⟨mid, hch, hrest⟩ := hp.split
    rw [patternFrom_char htext hch]
    refine ih (fun hmem => hn (List.mem_cons_of_mem _ hmem)) (fun hempty => ?_) hrest
    simp [PatternBuilder.push, PatternBuilder.pushText, PatternBuilder.isEmpty] at hempty
  | @placed fixed e ps he _ ih =>
    have htail : indentBy n false (printPieces (.placed e :: ps)) =
        indentBy n false (e.print true) ++ indentBy n false (printPieces ps) := by
      rw [printPieces, List.flatMap_cons, Piece.print, indentBy_append, endsLine_print_true]
      rfl
    rw [htail] at hp
    obtain ⟨mid, hplaced, hrest⟩ := hp.split
    have hread := (hP e he).reads n hplaced
    have hc : c.current = some '{' := by
      obtain ⟨text, htext⟩ := print_true_eq e
      rw [htext, indentBy_cons n (by decide)] at hplaced
      exact hplaced.current_cons
    rw [patternFrom_placeable hc hread]
    refine ih (fun hmem => hn (List.mem_cons_of_mem _ hmem)) (fun hempty => ?_) hrest
    simp [PatternBuilder.pushPlaceable, PatternBuilder.isEmpty] at hempty
  | @«break» fixed blankLines extra ps hfixed hstart _ ih =>
    obtain ⟨ch, text, htext, hspace, hfeed, hends⟩ := printPieces_of_startsLine hstart
    rw [indentBy_break n blankLines extra hstart] at hp
    obtain ⟨mid, hbreak, hrest⟩ := hp.split
    have hpos : 0 < n := hn (List.mem_append_left _ (by simp [breakPieces]))
    have hmid : mid.current = some ch := by
      rw [htext, indentBy_cons n hfeed] at hrest
      exact hrest.current_cons
    have hne : b.isEmpty = false := by
      cases hempty : b.isEmpty with
      | false => rfl
      | true => exact absurd rfl (hb hempty)
    -- the first break fixes the common indentation, and later ones keep it
    have hcommon : (if fixed then some n else none).getD (n + extra) = n := by
      cases fixed with
      | true => rfl
      | false =>
        rw [hfixed rfl]
        rfl
    rw [patternFrom_break deep hne _ (by omega) hbreak hmid hspace hfeed hends, hcommon,
      Nat.add_sub_cancel_left, PatternBuilder.pushAll_append]
    refine ih (fun _ => hpos) (fun hempty => ?_) hrest
    rw [isEmpty_pushAll_break] at hempty
    cases hempty

/-! ## Patterns behind a name -/

/-- A space in front of something else is skipped. -/
theorem skipBlankInline_passes {c stop : Cursor} {ch : Char} {text : List Char} (hspace : ch ≠ ' ')
    (hp : c.Passes (' ' :: ch :: text) stop) : c.skipBlankInline.Passes (ch :: text) stop := by
  obtain ⟨mid, hsp, hbody⟩ := hp.uncons
  have hstop : Stops (· == ' ') mid.rest :=
    Cursor.stops_of_current hbody.current_cons (by simpa using hspace)
  rw [show c.skipBlankInline = mid from Cursor.skipWhile_eq_iff.2 ⟨[' '], hsp, by simp, hstop⟩]
  exact hbody

/-- A pattern that starts on a line of its own has the indentation of this line. -/
theorem pattern_below (deep : Nested) {indent : Nat} (hindent : 0 < indent) {c mid : Cursor}
    {ch : Char} (hp : c.Passes ('\n' :: List.replicate indent ' ') mid)
    (hch : mid.current = some ch) (hspace : ch ≠ ' ') (hfeed : ch ≠ '\n')
    (hends : endsPattern ch = false) :
    pattern deep c.skipBlankInline = patternFrom deep .empty (some indent) mid := by
  obtain ⟨line, hbreak, hline⟩ := hp.uncons
  have hskip : c.skipBlankInline = c :=
    Cursor.skipWhile_of_stops (Cursor.stops_of_current hbreak.current_cons (by decide))
  have hnext : continuation? c = some ⟨0, indent, mid⟩ := by
    rw [continuation?, Cursor.bump_eq hbreak]
    exact continuationFrom?_of_passes hindent hch hspace hfeed hends
      (show line.Passes (List.replicate 0 '\n' ++ List.replicate indent ' ') mid from hline)
  rw [hskip, pattern, patternFrom_line deep .empty none hbreak.current_cons hnext]
  rfl

/-- What a pattern begins with tells whether its indentation may be fixed before. -/
theorem printPieces_of_opening {fixed : Bool} {ps : List Piece} (h : Opening fixed ps) :
    ∃ ch text, printPieces ps = ch :: text ∧ ch ≠ ' ' ∧ ch ≠ '\n' ∧
      isSpecialAtLineStart ch = !fixed := by
  cases fixed with
  | true =>
    obtain ⟨ch, text, htext, hspace, hfeed, hends⟩ := printPieces_of_startsLine h
    refine ⟨ch, text, htext, hspace, hfeed, ?_⟩
    simp only [endsPattern, Bool.or_eq_false_iff] at hends
    simp [isSpecialAtLineStart, hends.1.1.1, hends.1.1.2, hends.1.2]
  | false =>
    obtain ⟨ch, qs, rfl, hch⟩ := h
    refine ⟨ch, printPieces qs, rfl, ?_, ?_, hch⟩ <;> rintro rfl <;> exact absurd hch (by decide)

namespace ReadablePattern

variable {P : Expression → Prop} {fixed : Bool} {p : Pattern}

/-- A pattern that can be read is printed as it is. -/
theorem printPattern_eq (h : ReadablePattern P fixed p) :
    printPattern p = printPieces p.pieces := by
  rw [printPattern, printElements_eq]
  exact h.lines.print_eq nofun

/-- A readable pattern does not start with a line feed. -/
theorem head?_ne_feed (h : ReadablePattern P fixed p) : p.pieces.head? ≠ some (.char '\n') := by
  obtain ⟨ch, text, htext, -, hfeed, -⟩ := printPieces_of_opening h.opening
  intro hhead
  obtain ⟨qs, hqs⟩ := List.head?_eq_some_iff.1 hhead
  rw [hqs] at htext
  exact hfeed (List.cons.inj htext).1.symm

/-- A pattern without lines of its own stands behind its name. -/
theorem indentBy_printValue_line (h : ReadablePattern P fixed p) (n : Nat)
    (hmulti : p.any PatternElement.isMultiline = false) :
    indentBy n false (printValue p) = ' ' :: indentBy n false (printPieces p.pieces) := by
  rw [printValue, h.printPattern_eq, hmulti, layOut, if_neg (by decide),
    indentBy_cons n (by decide)]

/-- So does one whose first line cannot start with its first character. -/
theorem indentBy_printValue_special (h : ReadablePattern P false p) (n : Nat)
    (hmulti : p.any PatternElement.isMultiline = true) :
    indentBy n false (printValue p) = ' ' :: indentBy (n + 4) false (printPieces p.pieces) := by
  obtain ⟨ch, text, htext, -, -, hspecial⟩ := printPieces_of_opening h.opening
  have hhead : (printPieces p.pieces).head?.any isSpecialAtLineStart = true := by
    rw [htext]
    exact hspecial
  rw [printValue, h.printPattern_eq, hmulti, layOut, if_pos rfl, if_pos hhead,
    indentBy_cons n (by decide), indentContinuations, indentFrom_eq_indentBy, indentBy_indentBy]

/-- Every other one stands on the lines below. -/
theorem indentBy_printValue_below (h : ReadablePattern P true p) (n : Nat)
    (hmulti : p.any PatternElement.isMultiline = true) :
    indentBy n false (printValue p) =
      '\n' :: (List.replicate (n + 4) ' ' ++ indentBy (n + 4) false (printPieces p.pieces)) := by
  obtain ⟨ch, text, htext, -, hfeed, hspecial⟩ := printPieces_of_opening h.opening
  have hhead : ¬ (printPieces p.pieces).head?.any isSpecialAtLineStart = true := by
    rw [htext]
    simpa using hspecial
  rw [printValue, h.printPattern_eq, hmulti, layOut, if_pos rfl, if_neg hhead, indentBy_feed,
    indentLines, indentFrom_eq_indentBy, indentBy_indentBy, htext, indentBy_true_cons _ hfeed]

/-- Behind a space the pattern starts on the same line. -/
theorem passes_skipBlankInline (h : ReadablePattern P fixed p) {n : Nat} {c stop : Cursor}
    (hp : c.Passes (' ' :: indentBy n false (printPieces p.pieces)) stop) :
    c.skipBlankInline.Passes (indentBy n false (printPieces p.pieces)) stop := by
  obtain ⟨ch, text, htext, hspace, hfeed, -⟩ := printPieces_of_opening h.opening
  rw [htext, indentBy_cons n hfeed] at hp ⊢
  exact skipBlankInline_passes hspace hp

/-- A printed pattern holds no carriage returns if its placeables hold none. -/
theorem noReturn (h : ReadablePattern P fixed p) (hP : ∀ e, P e → '\r' ∉ e.print true) :
    '\r' ∉ printValue p := by
  -- whether the indentation is fixed changes on the way, so the pieces are taken apart for either
  have hpieces : ∀ {fixed : Bool} {ps : List Piece}, PatternLines P fixed ps →
      '\r' ∉ printPieces ps := by
    intro fixed ps hlines
    induction hlines with
    | nil => exact List.not_mem_nil
    | char _ hr _ ih =>
      intro hmem
      rcases List.mem_cons.1 hmem with h | h
      · exact hr h.symm
      · exact ih h
    | @placed _ e _ he _ ih =>
      intro hmem
      rcases List.mem_append.1 hmem with h | h
      · exact hP e he h
      · exact ih h
    | «break» _ _ _ ih =>
      intro hmem
      rw [breakPieces, printPieces_chars] at hmem
      rcases List.mem_append.1 hmem with h | h
      · simp at h
      · exact ih h
  have hbody := hpieces h.lines
  have hfrom : ∀ b, '\r' ∉ indentFrom b (printPieces p.pieces) := by
    intro b hmem
    rw [indentFrom_eq_indentBy] at hmem
    rcases mem_indentBy hmem with h | h
    · exact hbody h
    · exact absurd h (by decide)
  rw [printValue, h.printPattern_eq, layOut]
  split
  · split
    · simpa [indentContinuations] using hfrom false
    · simpa [indentLines] using hfrom true
  · simpa using hbody

/-- Printed behind a name, the pattern is read again, wherever that is and however far its lines are
indented. -/
theorem reads {deep : Nested} (h : ReadablePattern P fixed p)
    (hP : ∀ e, P e → PrintsBack (deep.placeable []) e (e.print true)) (n : Nat) {c stop : Cursor}
    (hp : c.Passes (indentBy n false (printValue p)) stop) (hend : PatternEnds stop) :
    pattern deep c.skipBlankInline = .ok (some p, stop) := by
  have hfirst : PatternBuilder.empty.isEmpty = true → p.pieces.head? ≠ some (.char '\n') :=
    fun _ => h.head?_ne_feed
  cases hmulti : p.any PatternElement.isMultiline with
  | false =>
    -- without breaks it does not matter how far the lines are indented
    have hnone : .char '\n' ∉ p.pieces := by
      intro hmem
      rw [any_isMultiline_eq] at hmulti
      exact List.any_eq_false.1 hmulti _ hmem rfl
    rw [h.indentBy_printValue_line n hmulti] at hp
    have hread := patternFrom_pieces hP (h.lines.unfix hnone) (fun hmem => absurd hmem hnone)
      hfirst (h.passes_skipBlankInline hp) hend
    rw [h.finish] at hread
    exact hread
  | true =>
    cases fixed with
    | false =>
      rw [h.indentBy_printValue_special n hmulti] at hp
      have hread := patternFrom_pieces hP h.lines (fun _ => Nat.lt_add_left n (by decide)) hfirst
        (h.passes_skipBlankInline hp) hend
      rw [h.finish] at hread
      exact hread
    | true =>
      obtain ⟨ch, text, htext, hspace, hfeed, hends⟩ := printPieces_of_startsLine h.opening
      rw [h.indentBy_printValue_below n hmulti] at hp
      rw [← List.cons_append] at hp
      obtain ⟨mid, hindent, hbody⟩ := hp.split
      have hmid : mid.current = some ch := by
        rw [htext, indentBy_cons _ hfeed] at hbody
        exact hbody.current_cons
      have hread := patternFrom_pieces hP h.lines (fun _ => Nat.lt_add_left n (by decide)) hfirst
        hbody hend
      rw [h.finish] at hread
      rw [pattern_below deep (Nat.lt_add_left n (by decide)) hindent hmid hspace hfeed hends]
      exact hread

end ReadablePattern

end Grammar

end Fluent
