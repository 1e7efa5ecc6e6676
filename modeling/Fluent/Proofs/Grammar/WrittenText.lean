/-
# Reading a text that was written into a tree

A text that no source was read for may hold what no text of a source can hold.  It is printed with
its braces, and with what cannot be text at the start of a line, as string literals of one
character; what is read of the printed text are single pieces.

* `ReadBack` : the pieces that are read of a printed text, which may lose spaces and may end early;
* `ReadBack.piecesOf` : nothing is lost exactly where the lines of the text are kept;
* `patternFrom_readBack` : these pieces are read;
* `pattern_layOut` : so is the printed value of a text, in each of the layouts that it may have.
-/
import Fluent.Proofs.Grammar.Variants
import Fluent.Proofs.Text.TextLines

namespace Fluent

/-! ## Pieces of a printed text -/

/-- The character is printed as a string literal. -/
def isQuoted (atLineStart : Bool) (ch : Char) : Bool :=
  ch == '{' || ch == '}' || (atLineStart && isSpecialAtLineStart ch)

/-- A string literal of one character that needs no escape. -/
def StringLiteral.ofChar (ch : Char) : StringLiteral :=
  ⟨String.ofList [ch], String.ofList [ch]⟩

/-- The piece that is read of a printed character. -/
def pieceOf (atLineStart : Bool) (ch : Char) : Piece :=
  if isQuoted atLineStart ch then .placed (.string (.ofChar ch)) else .char ch

/-- The piece stands for a single character. -/
inductive Piece.IsSingle : Piece → Prop
  | char (ch : Char) : IsSingle (.char ch)
  | quoted (ch : Char) : IsSingle (.placed (.string (.ofChar ch)))

/-- The text that a character or a string literal stands for. -/
def Piece.chars : Piece → List Char
  | .char ch => [ch]
  | .placed (.string l) => l.value.toList
  | .placed _ => []

/-- A single piece stands for one character. -/
theorem Piece.IsSingle.length_chars {x : Piece} (h : x.IsSingle) : x.chars.length = 1 := by
  cases h with
  | char ch => rfl
  | quoted ch => rw [chars, StringLiteral.ofChar, String.toList_ofList]; rfl

/-- Each character is written as one single piece. -/
theorem isSingle_pieceOf (atLineStart : Bool) (ch : Char) : (pieceOf atLineStart ch).IsSingle := by
  unfold pieceOf
  split
  · exact .quoted ch
  · exact .char ch

/-- The piece that a character is written as stands for this character. -/
theorem chars_pieceOf (atLineStart : Bool) (ch : Char) : (pieceOf atLineStart ch).chars = [ch] := by
  unfold pieceOf
  split
  · exact String.toList_ofList
  · rfl

/-- Single pieces stand for as many characters as they are. -/
theorem length_flatMap_chars {ps : List Piece} (h : ∀ x ∈ ps, x.IsSingle) :
    (ps.flatMap Piece.chars).length = ps.length := by
  induction ps with
  | nil => rfl
  | cons x ps ih =>
    have hrest := ih fun y hy => h y (List.mem_cons_of_mem _ hy)
    rw [List.flatMap_cons, List.length_append, (h x List.mem_cons_self).length_chars, hrest,
      List.length_cons, Nat.add_comm]

/-- Characters taken as pieces stand for themselves. -/
theorem flatMap_chars_map (text : List Char) :
    (text.map Piece.char).flatMap Piece.chars = text := by
  induction text with
  | nil => rfl
  | cons ch text ih => rw [List.map_cons, List.flatMap_cons, ih]; rfl

/-- A character that must be quoted is written as a string literal in braces. -/
theorem printChar_of_isQuoted {atLineStart : Bool} {ch : Char}
    (h : isQuoted atLineStart ch = true) :
    printChar atLineStart ch = ['{', ' ', '"', ch, '"', ' ', '}'] :=
  if_pos h

/-- Any other character is written as it is. -/
theorem printChar_of_not_isQuoted {atLineStart : Bool} {ch : Char}
    (h : isQuoted atLineStart ch = false) : printChar atLineStart ch = [ch] :=
  if_neg fun hquoted => absurd (h.symm.trans hquoted) Bool.false_ne_true

/-- Printing adds only what stands around the characters of literals. -/
theorem mem_printChar {atLineStart : Bool} {ch x : Char} (h : x ∈ printChar atLineStart ch) :
    x = ch ∨ x ∈ ['{', ' ', '"', '}'] := by
  unfold printChar at h
  split at h
  · simp only [List.mem_cons, List.not_mem_nil, or_false] at h ⊢
    grind
  · exact .inl (List.mem_singleton.1 h)

/-- Writing a text puts no other characters in than those of the braces and quotes. -/
theorem mem_printText {atLineStart : Bool} {text : List Char} {x : Char}
    (h : x ∈ printText atLineStart text) : x ∈ text ∨ x ∈ ['{', ' ', '"', '}'] := by
  induction text generalizing atLineStart with
  | nil => exact .inl h
  | cons ch text ih =>
    rcases List.mem_append.1 h with h | h
    · rcases mem_printChar h with rfl | h
      · exact .inl List.mem_cons_self
      · exact .inr h
    · exact (ih h).imp_left (List.mem_cons_of_mem _)

/-- What a printed character starts with is special only if the character is, and was printed as it
is. -/
theorem printChar_cons (atLineStart : Bool) {ch : Char} (hspace : ch ≠ ' ') (hfeed : ch ≠ '\n') :
    ∃ first rest, printChar atLineStart ch = first :: rest ∧ first ≠ ' ' ∧ first ≠ '\n' ∧
      isSpecialAtLineStart first = (!atLineStart && isSpecialAtLineStart ch) ∧
        Grammar.endsPattern first = (!atLineStart && isSpecialAtLineStart ch) := by
  cases hquoted : isQuoted atLineStart ch with
  | true =>
    have hplain : (!atLineStart && isSpecialAtLineStart ch) = false := by
      rw [isQuoted, Bool.or_eq_true, Bool.or_eq_true] at hquoted
      rcases hquoted with (hch | hch) | hch
      · rw [eq_of_beq hch, Bool.and_eq_false_iff]
        exact .inr rfl
      · rw [eq_of_beq hch, Bool.and_eq_false_iff]
        exact .inr rfl
      · rw [(Bool.and_eq_true_iff.1 hch).1]
        rfl
    exact ⟨'{', _, printChar_of_isQuoted hquoted, by decide, by decide, hplain ▸ rfl, hplain ▸ rfl⟩
  | false =>
    have hspecial : isSpecialAtLineStart ch = (!atLineStart && isSpecialAtLineStart ch) := by
      rw [isQuoted, Bool.or_eq_false_iff] at hquoted
      cases atLineStart with
      | true => exact hquoted.2
      | false => rfl
    have hends : Grammar.endsPattern ch = isSpecialAtLineStart ch := by
      simp only [isQuoted, Bool.or_eq_false_iff] at hquoted
      show (isSpecialAtLineStart ch || ch == '}') = _
      rw [hquoted.1.2, Bool.or_false]
    exact ⟨ch, [], printChar_of_not_isQuoted hquoted, hspace, hfeed, hspecial, hends.trans hspecial⟩

namespace Grammar

open PatternBuilder

/-! ## What is read of a printed text -/

/-- The pieces that are read of a printed text if each line below the first one loses `lost` spaces
of its own; where that is not settled yet, the first of these lines settles it by losing all that it
has.  A character that cannot be text at the start of a line and was printed as it is, behind
spaces, ends the pattern. -/
inductive ReadBack : Option Nat → List Char → List Piece → Prop
  | nil {lost : Option Nat} : ReadBack lost [] []
  | char {lost : Option Nat} {ch : Char} {text : List Char} {ps : List Piece} (hfeed : ch ≠ '\n')
      (hrest : ReadBack lost text ps) : ReadBack lost (ch :: text) (pieceOf false ch :: ps)
  | line {lost : Option Nat} (emptyLines : Nat) {spaces : Nat} {ch : Char} {text : List Char}
      {ps : List Piece} (hspace : ch ≠ ' ') (hfeed : ch ≠ '\n')
      (hstart : 0 < spaces → isSpecialAtLineStart ch = false)
      (hrest : ReadBack (some (lost.getD spaces)) text ps) :
      ReadBack lost (lineBreak emptyLines spaces ++ ch :: text)
        (breakPieces emptyLines (spaces - lost.getD spaces) ++ pieceOf (spaces == 0) ch :: ps)
  | cut {lost : Option Nat} (emptyLines : Nat) {spaces : Nat} {ch : Char} (text : List Char)
      (hspaces : 0 < spaces) (hch : isSpecialAtLineStart ch = true) :
      ReadBack lost (lineBreak emptyLines spaces ++ ch :: text) []

/-- Single pieces that are read of a text: no more than it has characters, and as many exactly where
its lines are kept. -/
structure PiecesOf (fixed : Bool) (text : List Char) (ps : List Piece) : Prop where
  single : ∀ x ∈ ps, x.IsSingle
  length_le : ps.length ≤ text.length
  length_eq_iff : ps.length = text.length ↔ LinesKept fixed text
  chars_eq : ps.length = text.length → ps.flatMap Piece.chars = text

/-- A line break is as long as its line feeds and spaces. -/
theorem length_lineBreak (emptyLines spaces : Nat) :
    (lineBreak emptyLines spaces).length = emptyLines + 1 + spaces := by
  rw [lineBreak, List.length_append, List.length_replicate, List.length_replicate]

/-- A line break has a piece for each of its line feeds and spaces. -/
theorem length_breakPieces (emptyLines spaces : Nat) :
    (breakPieces emptyLines spaces).length = emptyLines + 1 + spaces := by
  rw [breakPieces, List.length_map, ← lineBreak, length_lineBreak]

/-- What is special at the start of a line is no blank. -/
theorem special_ne {ch : Char} (h : isSpecialAtLineStart ch = true) : ch ≠ ' ' ∧ ch ≠ '\n' := by
  constructor <;> rintro rfl <;> exact absurd h (by decide)

namespace ReadBack

variable {lost : Option Nat} {text : List Char} {ps : List Piece}

/-- Something is read of every text that can be taken apart by its lines. -/
theorem exists_pieces (h : TextLines text) (lost : Option Nat) : ∃ ps, ReadBack lost text ps := by
  induction h generalizing lost with
  | nil => exact ⟨[], .nil⟩
  | char hfeed _ ih =>
    obtain ⟨ps, hps⟩ := ih lost
    exact ⟨_, .char hfeed hps⟩
  | @«break» emptyLines spaces ch text hspace hfeed _ ih =>
    by_cases hcut : 0 < spaces ∧ isSpecialAtLineStart ch = true
    · exact ⟨[], .cut emptyLines text hcut.1 hcut.2⟩
    · obtain ⟨ps, hps⟩ := ih (some (lost.getD spaces))
      exact ⟨_, .line emptyLines hspace hfeed (fun hpos => by simpa [hpos] using hcut) hps⟩

/-- Without line ends it does not matter what lines lose. -/
theorem of_not_mem (h : ReadBack lost text ps) (hn : '\n' ∉ text) (other : Option Nat) :
    ReadBack other text ps := by
  induction h with
  | nil => exact .nil
  | char hfeed _ ih => exact .char hfeed (ih fun hmem => hn (List.mem_cons_of_mem _ hmem))
  | line | cut => exact absurd (List.mem_append_left _ (by simp [lineBreak])) hn

/-- All pieces read back are single ones. -/
theorem single (h : ReadBack lost text ps) : ∀ x ∈ ps, x.IsSingle := by
  induction h with
  | nil | cut => exact nofun
  | char _ _ ih =>
    intro x hx
    rcases List.mem_cons.1 hx with rfl | hx
    · exact isSingle_pieceOf _ _
    · exact ih x hx
  | line _ _ _ _ _ ih =>
    intro x hx
    rcases List.mem_append.1 hx with hx | hx
    · obtain ⟨ch, -, rfl⟩ := List.mem_map.1 hx
      exact .char ch
    · rcases List.mem_cons.1 hx with rfl | hx
      · exact isSingle_pieceOf _ _
      · exact ih x hx

/-- No more pieces are read back than characters were written. -/
theorem length_le (h : ReadBack lost text ps) : ps.length ≤ text.length := by
  induction h with
  | nil => exact Nat.le_refl 0
  | char _ _ ih => exact Nat.succ_le_succ ih
  | line =>
    simp only [List.length_append, List.length_cons, length_breakPieces, length_lineBreak]
    omega
  | cut => exact Nat.zero_le _

/-- If as much is read as was printed, it stands for the text. -/
theorem chars_eq (h : ReadBack lost text ps) (hlength : ps.length = text.length) :
    ps.flatMap Piece.chars = text := by
  induction h with
  | nil => rfl
  | char _ _ ih =>
    rw [List.flatMap_cons, chars_pieceOf, ih (Nat.succ.inj hlength)]
    rfl
  | @line lost emptyLines spaces ch text ps _ _ _ hrest ih =>
    have hle := hrest.length_le
    simp only [List.length_append, List.length_cons, length_breakPieces, length_lineBreak]
      at hlength
    have hspaces : spaces - lost.getD spaces = spaces := by omega
    rw [List.flatMap_append, List.flatMap_cons, chars_pieceOf, ih (by omega), hspaces, breakPieces,
      flatMap_chars_map]
    rfl
  | @cut _ emptyLines spaces ch text _ _ =>
    rw [List.length_append, List.length_cons] at hlength
    cases hlength

/-- As much is read as was printed if the lines are kept, and only then. -/
theorem length_eq_iff (h : ReadBack lost text ps) (hlost : ∀ n ∈ lost, n = 0) :
    ps.length = text.length ↔ LinesKept lost.isSome text := by
  induction h with
  | nil => exact ⟨fun _ => linesKept_nil, fun _ => rfl⟩
  | char hfeed _ ih =>
    rw [linesKept_char hfeed, ← ih hlost, List.length_cons, List.length_cons, Nat.succ_inj]
  | @line lost emptyLines spaces ch text ps hspace hfeed hstart hrest ih =>
    have hle := hrest.length_le
    rw [linesKept_break emptyLines spaces hspace hfeed]
    simp only [List.length_append, List.length_cons, length_breakPieces, length_lineBreak]
    cases lost with
    | none =>
      -- the first line loses its spaces, so there must be none
      constructor
      · intro hlength
        obtain rfl : spaces = 0 := by
          simp only [Option.getD_none, Nat.sub_self] at hlength
          omega
        refine ⟨fun _ => rfl, hstart, (ih (by simp)).1 ?_⟩
        omega
      · rintro ⟨hnone, -, hkept⟩
        obtain rfl := hnone rfl
        have hlength := (ih (by simp)).2 hkept
        omega
    | some n =>
      obtain rfl := hlost n rfl
      have hih := ih hlost
      rw [Option.getD_some, Option.isSome_some] at *
      rw [← hih]
      constructor
      · exact fun hlength => ⟨nofun, hstart, by omega⟩
      · rintro ⟨-, -, hlength⟩
        omega
  | cut emptyLines text hspaces hch =>
    obtain ⟨hspace, hfeed⟩ := special_ne hch
    rw [linesKept_break emptyLines _ hspace hfeed]
    constructor
    · intro hlength
      rw [List.length_append, List.length_cons] at hlength
      cases hlength
    · rintro ⟨-, hstart, -⟩
      exact absurd (hch.symm.trans (hstart hspaces)) (by decide)

/-- A first character that is no line feed is the first piece read back. -/
theorem eq_cons {ch : Char} (h : ReadBack lost (ch :: text) ps) (hfeed : ch ≠ '\n') :
    ∃ qs, ps = pieceOf false ch :: qs := by
  generalize htext : ch :: text = whole at h
  cases h with
  | nil => cases htext
  | char =>
    obtain ⟨rfl, -⟩ := List.cons.inj htext
    exact ⟨_, rfl⟩
  | line | cut => exact absurd (List.cons.inj htext).1 hfeed

/-- What is read are pieces of the text, if no more is lost than what the first line below loses. -/
theorem piecesOf (h : ReadBack lost text ps) (hlost : ∀ n ∈ lost, n = 0) :
    PiecesOf lost.isSome text ps :=
  ⟨h.single, h.length_le, h.length_eq_iff hlost, h.chars_eq⟩

end ReadBack

namespace PiecesOf

variable {fixed : Bool} {text : List Char} {ps : List Piece}

/-- A space at the end was no piece of a text that ends in none. -/
theorem trim (h : PiecesOf fixed text (ps ++ [.char ' '])) (hlast : text.getLast? ≠ some ' ') :
    PiecesOf fixed text ps := by
  have hle := h.length_le
  have hne : (ps ++ [Piece.char ' ']).length ≠ text.length := by
    intro hlength
    rw [← h.chars_eq hlength, List.flatMap_append] at hlast
    exact hlast List.getLast?_concat
  have hkept : ¬LinesKept fixed text := fun hkept => hne (h.length_eq_iff.2 hkept)
  rw [List.length_append, List.length_singleton] at hle
  exact
    { single := fun x hx => h.single x (List.mem_append_left _ hx)
      length_le := by omega
      length_eq_iff := ⟨fun hlength => by omega, fun hk => absurd hk hkept⟩
      chars_eq := fun hlength => by omega }

/-- Pieces of such a text that are not spaces only make a pattern. -/
theorem exists_finish (h : PiecesOf fixed text ps) (hlast : text.getLast? ≠ some ' ')
    (hne : ∃ x ∈ ps, x ≠ .char ' ') :
    ∃ p, (empty.pushAll ps).finish = some p ∧ PiecesOf fixed text p.pieces := by
  induction hn : ps.length generalizing ps with
  | zero =>
    obtain ⟨x, hx, -⟩ := hne
    rw [List.length_eq_zero_iff.1 hn] at hx
    cases hx
  | succ n ih =>
    -- spaces at the end are dropped one by one
    by_cases hspace : ps.getLast? = some (.char ' ')
    · obtain ⟨init, rfl⟩ := List.getLast?_eq_some_iff.1 hspace
      obtain ⟨x, hx, hxne⟩ := hne
      have hinit : x ∈ init :=
        (List.mem_append.1 hx).resolve_right fun hx => hxne (List.mem_singleton.1 hx)
      rw [finish_pushAll_space]
      exact ih (h.trim hlast) ⟨x, hinit, hxne⟩ (by simpa using hn)
    · have hcons : ps ≠ [] := by
        rintro rfl
        cases hn
      obtain ⟨p, hp, hpieces⟩ := finish_pushAll hcons hspace
      exact ⟨p, hp, hpieces.symm ▸ h⟩

/-- The pieces stand for the text exactly where its lines are kept. -/
theorem chars_eq_iff (h : PiecesOf fixed text ps) :
    ps.flatMap Piece.chars = text ↔ LinesKept fixed text := by
  rw [← h.length_eq_iff]
  constructor
  · intro hchars
    rw [← length_flatMap_chars h.single, hchars]
  · exact h.chars_eq

end PiecesOf

/-! ## Reading a printed text -/

/-- String literals of one character are read where they stand in braces. -/
def ReadsQuoted (deep : Nested) : Prop :=
  ∀ (ch : Char) (c stop : Cursor), isQuoted true ch = true →
    c.Passes ['{', ' ', '"', ch, '"', ' ', '}'] stop →
      (deep.placeable []).run c = .ok (.string (.ofChar ch), stop)

/-- What is quoted within a line is quoted at the start of a line. -/
theorem isQuoted_true {atLineStart : Bool} {ch : Char} (h : isQuoted atLineStart ch = true) :
    isQuoted true ch = true := by
  cases atLineStart with
  | true => exact h
  | false =>
    rw [isQuoted, Bool.false_and, Bool.or_false] at h
    rw [isQuoted, h, Bool.true_or]

/-- What is written as it is, and is no line feed, is text. -/
theorem isText_of_not_isQuoted {atLineStart : Bool} {ch : Char}
    (h : isQuoted atLineStart ch = false) (hfeed : ch ≠ '\n') : isText ch = true := by
  simp only [isQuoted, Bool.or_eq_false_iff, beq_eq_false_iff_ne] at h
  exact isText_of_ne h.1.1 h.1.2 hfeed

/-- A printed character is read as one piece. -/
theorem patternFrom_printChar {deep : Nested} (hdeep : ReadsQuoted deep) {b : PatternBuilder}
    {common : Option Nat} {c mid : Cursor} {atLineStart : Bool} {ch : Char} (hfeed : ch ≠ '\n')
    (hp : c.Passes (printChar atLineStart ch) mid) :
    patternFrom deep b common c =
      patternFrom deep (b.push (pieceOf atLineStart ch)) common mid := by
  cases hquoted : isQuoted atLineStart ch with
  | true =>
    rw [printChar_of_isQuoted hquoted] at hp
    rw [pieceOf, if_pos hquoted]
    exact patternFrom_placeable hp.current_cons (hdeep _ _ _ (isQuoted_true hquoted) hp)
  | false =>
    rw [printChar_of_not_isQuoted hquoted] at hp
    rw [pieceOf, hquoted]
    exact patternFrom_char (isText_of_not_isQuoted hquoted hfeed) hp

/-- A builder with a piece in it is not empty. -/
theorem isEmpty_push (b : PatternBuilder) (x : Piece) : (b.push x).isEmpty = false := by
  cases x <;> simp [PatternBuilder.push, PatternBuilder.pushText, PatternBuilder.pushPlaceable,
    PatternBuilder.isEmpty]

/-- Indentation leaves a printed character as it is. -/
theorem indentBy_printChar (n : Nat) (atLineStart : Bool) {ch : Char} (hfeed : ch ≠ '\n')
    (text : List Char) :
    indentBy n false (printChar atLineStart ch ++ text) =
      printChar atLineStart ch ++ indentBy n false text := by
  have hline : '\n' ∉ printChar atLineStart ch := fun hmem =>
    (mem_printChar hmem).elim hfeed.symm (by decide)
  rw [indentBy_append, indentBy_of_not_mem n hline, endsLine_of_not_mem hline]

/-- A break is printed as it is, and the next line starts behind it. -/
theorem printText_lineBreak (emptyLines spaces : Nat) {ch : Char} (hfeed : ch ≠ '\n')
    (text : List Char) :
    printText false (lineBreak emptyLines spaces ++ ch :: text) =
      lineBreak emptyLines spaces ++ (printChar (spaces == 0) ch ++ printText false text) := by
  have hline : (ch == '\n') = false := by simpa using hfeed
  rw [lineBreak, printText_append, printText_append, (printText_feeds false emptyLines).1,
    (printText_feeds false emptyLines).2, (printText_spaces true spaces).1, endsLine_append,
    (printText_feeds false emptyLines).2, (printText_spaces true spaces).2, Bool.and_true,
    printText, hline]
  rfl

/-- Indenting a line break adds the spaces to its last line only: the empty lines stay empty. -/
theorem indentBy_lineBreak {n emptyLines spaces : Nat} {ch first : Char} {text rest : List Char}
    (hfirst : printChar (spaces == 0) ch = first :: rest) (hfeed : first ≠ '\n') :
    indentBy n false (lineBreak emptyLines spaces ++ (printChar (spaces == 0) ch ++ text)) =
      (List.replicate (emptyLines + 1) '\n' ++ List.replicate (n + spaces) ' ') ++
        indentBy n false (printChar (spaces == 0) ch ++ text) := by
  rw [hfirst]
  exact indentBy_lineStart n emptyLines spaces hfeed (rest ++ text)

/-- Behind a line's first character, one that cannot be text there is printed as it is. -/
theorem printChar_of_special {ch : Char} (h : isSpecialAtLineStart ch = true) :
    printChar false ch = [ch] := by
  refine printChar_of_not_isQuoted ?_
  rw [isQuoted, Bool.false_and, Bool.or_false, Bool.or_eq_false_iff]
  constructor <;> refine beq_eq_false_iff_ne.2 ?_ <;> rintro rfl <;> exact absurd h (by decide)

/-- A pattern ends before a line that starts with what cannot be text there. -/
theorem patternEnds_of_special {emptyLines spaces : Nat} {ch : Char} {c line : Cursor}
    (hbreak : c.Passes (List.replicate (emptyLines + 1) '\n' ++ List.replicate spaces ' ') line)
    (hline : line.current = some ch) (hch : isSpecialAtLineStart ch = true) : PatternEnds c := by
  obtain ⟨hspace, hfeed⟩ := special_ne hch
  have hblank : Blank (List.replicate (emptyLines + 1) '\n' ++ List.replicate spaces ' ') := by
    refine Blank.append (fun x hx => ?_) (spaces_replicate _).blank
    rw [List.eq_of_mem_replicate hx]
    rfl
  have hfirst : c.current = some '\n' := by
    rw [List.replicate_succ, List.cons_append] at hbreak
    exact hbreak.current_cons
  refine patternEnds_of_skipBlank hfirst fun x hx => ?_
  rw [skipBlank_eq_of_passes hbreak hblank hline hspace hfeed] at hx
  obtain rfl := Option.some.inj (hline.symm.trans hx)
  show (isSpecialAtLineStart ch || ch == '}') = true
  rw [hch, Bool.true_or]

/-- What is printed of a text is read as the pieces that are read back of it, and the whole of it if
these are as many as the text has characters. -/
theorem patternFrom_readBack {deep : Nested} (hdeep : ReadsQuoted deep) {n : Nat} (hn : 0 < n)
    {lost : Option Nat} {text : List Char} {ps : List Piece} (h : ReadBack lost text ps)
    {b : PatternBuilder} {c stop : Cursor} (hb : b.isEmpty = true → text.head? ≠ some '\n')
    (hp : c.Passes (indentBy n false (printText false text)) stop) (hend : PatternEnds stop) :
    ∃ mid, patternFrom deep b (lost.map (n + ·)) c = .ok ((b.pushAll ps).finish, mid) ∧
      (ps.length = text.length → mid = stop) := by
  -- the induction is on what is read, for whatever the builder holds of what was read before
  induction h generalizing b c with
  | nil =>
    obtain rfl := hp.eq_of_nil
    exact ⟨_, patternFrom_of_ends deep b _ hend, fun _ => rfl⟩
  | @char lost ch text ps hfeed _ ih =>
    have hline : (ch == '\n') = false := by simpa using hfeed
    rw [printText, hline, indentBy_printChar n false hfeed] at hp
    obtain ⟨next, hch, hrest⟩ := hp.split
    obtain ⟨mid, hread, hmid⟩ := ih (b := b.push (pieceOf false ch))
      (fun h => absurd (h.symm.trans (isEmpty_push b _)) (by decide)) hrest
    exact ⟨mid, (patternFrom_printChar hdeep hfeed hch).trans hread,
      fun hlength => hmid (Nat.succ.inj hlength)⟩
  | @line lost emptyLines spaces ch text ps hspace hfeed hstart hrest ih =>
    obtain ⟨first, rest, hfirst, hsp, hfd, -, hends⟩ := printChar_cons (spaces == 0) hspace hfeed
    have hplain : (!(spaces == 0) && isSpecialAtLineStart ch) = false := by
      rcases Nat.eq_zero_or_pos spaces with rfl | hpos
      · rfl
      · rw [hstart hpos, Bool.and_false]
    rw [hplain] at hends
    rw [printText_lineBreak emptyLines spaces hfeed, indentBy_lineBreak hfirst hfd,
      indentBy_printChar n _ hfeed] at hp
    obtain ⟨line, hbreak, hp⟩ := hp.split
    obtain ⟨next, hch, hp⟩ := hp.split
    have hline : line.current = some first := by
      rw [hfirst] at hch
      exact hch.current_cons
    have hne : b.isEmpty = false := by
      cases hempty : b.isEmpty with
      | false => rfl
      | true => exact absurd rfl (hb hempty)
    have hcommon : (lost.map (n + ·)).getD (n + spaces) = n + lost.getD spaces := by
      cases lost <;> rfl
    have hnext : ∀ b : PatternBuilder, (b.push (pieceOf (spaces == 0) ch)).isEmpty = true →
        text.head? ≠ some '\n' :=
      fun b h => absurd ((isEmpty_push b _).symm.trans h) (by decide)
    obtain ⟨mid, hread, hmid⟩ := ih (hnext _) hp
    refine ⟨mid, ?_, fun hlength => hmid ?_⟩
    · rw [patternFrom_break deep hne _ (by omega) hbreak hline hsp hfd hends, hcommon,
        Nat.add_sub_add_left, patternFrom_printChar hdeep hfeed hch, PatternBuilder.pushAll_append]
      exact hread
    · have hle := hrest.length_le
      simp only [List.length_append, List.length_cons, length_breakPieces, length_lineBreak]
        at hlength
      omega
  | @cut lost emptyLines spaces ch text hspaces hch =>
    -- the line that cannot continue the pattern ends it
    have hplain : printChar (spaces == 0) ch = [ch] := by
      rw [show (spaces == 0) = false by simpa using Nat.ne_of_gt hspaces]
      exact printChar_of_special hch
    have hfeed := (special_ne hch).2
    rw [printText_lineBreak emptyLines spaces hfeed, indentBy_lineBreak hplain hfeed, hplain] at hp
    obtain ⟨line, hbreak, hp⟩ := hp.split
    have hline : line.current = some ch := by
      rw [List.singleton_append, indentBy_cons n hfeed] at hp
      exact hp.current_cons
    have hends : PatternEnds c := patternEnds_of_special hbreak hline hch
    refine ⟨c, patternFrom_of_ends deep b _ hends, fun hlength => ?_⟩
    rw [List.length_append, List.length_cons] at hlength
    cases hlength

/-! ## Printed values -/

/-- The first line cannot start with what the text starts with. -/
def startsSpecial (text : List Char) : Bool :=
  text.head?.any isSpecialAtLineStart

/-- A value of one text is laid out on lines of its own exactly when it holds a line feed. -/
theorem printValue_text (value : String) :
    printValue [.text value] =
      layOut (value.toList.contains '\n') (printText false value.toList) := by
  simp [printValue, printPattern, printElements, PatternElement.isMultiline]

/-- What the lines of a text lose: nothing, or what the first of them has, if the value starts
behind the equals sign. -/
def lostBelow (text : List Char) : Option Nat :=
  if startsSpecial text then none else some 0

/-- The printed value of a text is read as what is read back of it, however it is laid out. -/
theorem patternFrom_layOut {deep : Nested} (hdeep : ReadsQuoted deep) {ch : Char} {text : List Char}
    (hlines : TextLines (ch :: text)) (hspace : ch ≠ ' ') (hfeed : ch ≠ '\n') {c stop : Cursor}
    (hp : c.Passes (layOut ((ch :: text).contains '\n') (printText false (ch :: text))) stop)
    (hend : PatternEnds stop) :
    ∃ ps mid, ReadBack (lostBelow (ch :: text)) (ch :: text) ps ∧
      pattern deep c.skipBlankInline = .ok ((empty.pushAll ps).finish, mid) ∧
        (ps.length = (ch :: text).length → mid = stop) := by
  have hhead : PatternBuilder.empty.isEmpty = true → (ch :: text).head? ≠ some '\n' :=
    fun _ h => hfeed (Option.some.inj h)
  obtain ⟨first, rest, hfirst, hsp, hfd, hspecial, hends⟩ := printChar_cons false hspace hfeed
  have hline : (ch == '\n') = false := by simpa using hfeed
  have hbody : printText false (ch :: text) = first :: (rest ++ printText false text) := by
    rw [printText, hline, hfirst]
    rfl
  rw [Bool.not_false, Bool.true_and] at hspecial hends
  cases hmulti : (ch :: text).contains '\n' with
  | false =>
    have hnone : '\n' ∉ ch :: text := by simpa using hmulti
    rw [hmulti, layOut, if_neg (by decide), hbody] at hp
    have hinline := skipBlankInline_passes hsp hp
    obtain ⟨ps, hps⟩ := ReadBack.exists_pieces hlines none
    have hone : '\n' ∉ printText false (ch :: text) := fun hmem =>
      (mem_printText hmem).elim hnone (by decide)
    rw [← hbody, ← indentBy_of_not_mem 1 hone] at hinline
    obtain ⟨mid, hread, hmid⟩ := patternFrom_readBack hdeep Nat.one_pos hps hhead hinline hend
    -- without line ends it does not matter what lines lose
    exact ⟨ps, mid, hps.of_not_mem hnone _, hread, hmid⟩
  | true =>
    cases hch : isSpecialAtLineStart ch with
    | true =>
      have hlost : lostBelow (ch :: text) = none := if_pos hch
      have hhere : (printText false (ch :: text)).head?.any isSpecialAtLineStart = true := by
        rw [hbody, List.head?_cons, Option.any_some, hspecial, hch]
      rw [hmulti, layOut, if_pos rfl, if_pos hhere, indentContinuations, indentFrom_eq_indentBy,
        hbody, indentBy_cons 4 hfd] at hp
      have hinline := skipBlankInline_passes hsp hp
      rw [← indentBy_cons 4 hfd, ← hbody] at hinline
      obtain ⟨ps, hps⟩ := ReadBack.exists_pieces hlines none
      obtain ⟨mid, hread, hmid⟩ := patternFrom_readBack hdeep (by decide) hps hhead hinline hend
      exact ⟨ps, mid, hlost ▸ hps, hread, hmid⟩
    | false =>
      have hlost : lostBelow (ch :: text) = some 0 :=
        if_neg fun h => absurd (hch.symm.trans h) Bool.false_ne_true
      have hbelow : ¬ (printText false (ch :: text)).head?.any isSpecialAtLineStart = true := by
        rw [hbody, List.head?_cons, Option.any_some, hspecial, hch]
        exact Bool.false_ne_true
      rw [hmulti, layOut, if_pos rfl, if_neg hbelow, indentLines, indentFrom_eq_indentBy, hbody,
        indentBy_true_cons 4 hfd, ← List.cons_append] at hp
      obtain ⟨start, hindent, hp⟩ := hp.split
      have hstart : start.current = some first := by
        rw [indentBy_cons 4 hfd] at hp
        exact hp.current_cons
      rw [← hbody] at hp
      obtain ⟨ps, hps⟩ := ReadBack.exists_pieces hlines (some 0)
      obtain ⟨mid, hread, hmid⟩ := patternFrom_readBack hdeep (by decide) hps hhead hp hend
      refine ⟨ps, mid, hlost ▸ hps, ?_, hmid⟩
      rw [pattern_below deep (by decide) hindent hstart hsp hfd (hends.trans hch)]
      exact hread

/-- The printed value of a text that ends in no space is read as a pattern that is made of pieces of
the text, and the whole value if the lines of the text are kept. -/
theorem pattern_layOut {deep : Nested} (hdeep : ReadsQuoted deep) {ch : Char} {text : List Char}
    (hlines : TextLines (ch :: text)) (hspace : ch ≠ ' ') (hfeed : ch ≠ '\n')
    (hlast : (ch :: text).getLast? ≠ some ' ') {c stop : Cursor}
    (hp : c.Passes (layOut ((ch :: text).contains '\n') (printText false (ch :: text))) stop)
    (hend : PatternEnds stop) :
    ∃ p mid, pattern deep c.skipBlankInline = .ok (some p, mid) ∧
      PiecesOf (!startsSpecial (ch :: text)) (ch :: text) p.pieces ∧
        (LinesKept (!startsSpecial (ch :: text)) (ch :: text) → mid = stop) := by
  obtain ⟨ps, mid, hps, hread, hmid⟩ := patternFrom_layOut hdeep hlines hspace hfeed hp hend
  have hpieces : PiecesOf (!startsSpecial (ch :: text)) (ch :: text) ps := by
    unfold lostBelow at hps
    split at hps
    · rename_i hstart
      exact hstart ▸ hps.piecesOf nofun
    · rename_i hstart
      exact Bool.eq_false_iff.2 hstart ▸ hps.piecesOf (by simp)
  obtain ⟨qs, hqs⟩ := hps.eq_cons hfeed
  have hne : pieceOf false ch ≠ .char ' ' := by
    intro heq
    have hchars := chars_pieceOf false ch
    rw [heq] at hchars
    exact hspace (List.cons.inj hchars).1.symm
  obtain ⟨p, hfinish, hp⟩ := hpieces.exists_finish hlast ⟨_, hqs ▸ List.mem_cons_self, hne⟩
  exact ⟨p, mid, hfinish ▸ hread, hp, fun hkept => hmid (hpieces.length_eq_iff.2 hkept)⟩

end Grammar

end Fluent
