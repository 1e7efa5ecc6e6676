/-
# The lines of a pattern

What a pattern that was read may look like, piece by piece.  A line break is followed by the spaces
that exceed the common indentation and then by something that may start a line; the first break
sets the common indentation and so is followed by no spaces, unless the pattern itself started on a
line of its own.

* `PatternLines` : the relation, and `PatternLines.trim` : it does not need the spaces at the end;
* `PatternLines.print_eq` : a pattern with such lines is printed piece by piece.
-/
import Fluent.Proofs.Grammar.Pieces
import Fluent.Proofs.Grammar.Tokens

namespace Fluent.Grammar

/-! ## Lines -/

/-- The pieces may stand at the start of a line. -/
def StartsLine : List Piece → Prop
  | .char ch :: _ => ch ≠ ' ' ∧ ch ≠ '\n' ∧ endsPattern ch = false
  | .placed _ :: _ => True
  | [] => False

/-- A line break, further empty lines, and spaces. -/
def breakPieces (blankLines extra : Nat) : List Piece :=
  (List.replicate (blankLines + 1) '\n' ++ List.replicate extra ' ').map .char

/-- The pieces can be read as the rest of a pattern.  Where the indentation is not fixed yet, the
first line break fixes it, and no spaces follow. -/
inductive PatternLines (P : Expression → Prop) : Bool → List Piece → Prop
  | nil {fixed : Bool} : PatternLines P fixed []
  | char {fixed : Bool} {ch : Char} {ps : List Piece} (htext : isText ch = true) (hr : ch ≠ '\r')
      (hrest : PatternLines P fixed ps) : PatternLines P fixed (.char ch :: ps)
  | placed {fixed : Bool} {e : Expression} {ps : List Piece} (he : P e)
      (hrest : PatternLines P fixed ps) : PatternLines P fixed (.placed e :: ps)
  | break {fixed : Bool} {blankLines extra : Nat} {ps : List Piece}
      (hfixed : fixed = false → extra = 0) (hstart : StartsLine ps)
      (hrest : PatternLines P true ps) : PatternLines P fixed (breakPieces blankLines extra ++ ps)

namespace PatternLines

variable {P : Expression → Prop} {fixed : Bool} {ps : List Piece}

/-- Text within a line. -/
theorem chars {text : List Char} (htext : ∀ ch ∈ text, isText ch = true) (hr : '\r' ∉ text)
    (hrest : PatternLines P fixed ps) : PatternLines P fixed (text.map .char ++ ps) := by
  induction text with
  | nil => exact hrest
  | cons ch text ih =>
    refine .char (htext ch List.mem_cons_self) (fun h => hr (h ▸ List.mem_cons_self)) (ih ?_ ?_)
    · exact fun x hx => htext x (List.mem_cons_of_mem _ hx)
    · exact fun h => hr (List.mem_cons_of_mem _ h)

/-- Where the indentation is fixed, more can be read. -/
theorem fix (h : PatternLines P fixed ps) : PatternLines P true ps := by
  induction h with
  | nil => exact .nil
  | char htext hr _ ih => exact .char htext hr ih
  | placed he _ ih => exact .placed he ih
  | «break» _ hstart hrest _ => exact .break nofun hstart hrest

/-- Without line breaks it does not matter whether the indentation is fixed. -/
theorem unfix (h : PatternLines P fixed ps) (hn : .char '\n' ∉ ps) : PatternLines P false ps := by
  induction h with
  | nil => exact .nil
  | char htext hr _ ih => exact .char htext hr (ih fun hmem => hn (List.mem_cons_of_mem _ hmem))
  | placed he _ ih => exact .placed he (ih fun hmem => hn (List.mem_cons_of_mem _ hmem))
  | @«break» _ blankLines extra ps _ _ _ _ =>
    exact absurd (List.mem_append_left _ (by simp [breakPieces])) hn

/-- A character that opens the lines of a pattern is text, unless it is a line feed. -/
theorem isText_head {ch : Char} (h : PatternLines P fixed (.char ch :: ps)) (hfeed : ch ≠ '\n') :
    isText ch = true := by
  generalize hqs : Piece.char ch :: ps = qs at h
  cases h with
  | nil => cases hqs
  | char htext _ _ =>
    obtain rfl := Piece.char.inj (List.cons.inj hqs).1
    exact htext
  | placed _ _ => cases hqs
  | «break» _ _ _ => exact absurd (Piece.char.inj (List.cons.inj hqs).1) hfeed

/-- A space at the end does not matter to how a line starts. -/
theorem startsLine_of_snoc (h : StartsLine (ps ++ [.char ' '])) : StartsLine ps := by
  cases ps with
  | nil => exact absurd rfl h.1
  | cons x ps =>
    cases x with
    | char ch => exact h
    | placed e => trivial

/-- A space at the end is not needed. -/
theorem trim (h : PatternLines P fixed (ps ++ [.char ' '])) : PatternLines P fixed ps := by
  generalize hqs : ps ++ [.char ' '] = qs at h
  induction h generalizing ps with
  | nil => simp at hqs
  | char htext hr hrest ih =>
    cases ps with
    | nil => exact .nil
    | cons x ps =>
      obtain ⟨rfl, htail⟩ := List.cons.inj hqs
      exact .char htext hr (ih htail)
  | placed he hrest ih =>
    cases ps with
    | nil => simp at hqs
    | cons x ps =>
      obtain ⟨rfl, htail⟩ := List.cons.inj hqs
      exact .placed he (ih htail)
  | @«break» _ blankLines extra rest hfixed hstart hrest ih =>
    -- the space at the end is not one of those that follow the break
    rcases List.eq_nil_or_concat rest with rfl | ⟨init, last, hinit⟩
    · exact absurd hstart (by simp [StartsLine])
    · rw [List.concat_eq_append] at hinit
      subst hinit
      rw [← List.append_assoc] at hqs
      obtain ⟨rfl, hlast⟩ := List.append_inj' hqs rfl
      obtain rfl := List.cons.inj hlast |>.1
      exact .break hfixed (startsLine_of_snoc hstart) (ih rfl)

end PatternLines

/-! ## Printing -/

/-- A piece as it stands in a pattern that can be read. -/
def Piece.print : Piece → List Char
  | .char ch => [ch]
  | .placed e => e.print true

/-- Pieces one after the other. -/
def printPieces (ps : List Piece) : List Char :=
  ps.flatMap Piece.print

/-- Characters are printed in front of what follows them. -/
theorem printPieces_chars (text : List Char) (ps : List Piece) :
    printPieces (text.map .char ++ ps) = text ++ printPieces ps := by
  rw [printPieces, List.flatMap_append]
  congr 1
  induction text with
  | nil => rfl
  | cons ch text ih => rw [List.map_cons, List.flatMap_cons, ih]; rfl

/-- A placeable is printed in braces. -/
theorem print_true_eq (e : Expression) : ∃ text, e.print true = '{' :: (text ++ ['}']) := by
  have hbraces : ∀ text, ∃ inner, inBraces true text = '{' :: (inner ++ ['}']) := by
    intro text
    refine ⟨' ' :: (text ++ [' ']), ?_⟩
    simp [inBraces]
  cases e with
  | string | number | var | message | function | placeable =>
    unfold Expression.print
    exact hbraces _
  | term id attr arguments =>
    cases arguments <;> unfold Expression.print <;> exact hbraces _
  | select selection =>
    unfold Expression.print
    exact ⟨' ' :: selection.print, by simp⟩

/-- Behind a placeable no line starts. -/
theorem endsLine_print_true (atLineStart : Bool) (e : Expression) :
    endsLine atLineStart (e.print true) = false := by
  obtain ⟨text, htext⟩ := print_true_eq e
  rw [htext, endsLine_cons, endsLine_append]
  rfl

/-- What starts a line is neither blank nor empty. -/
theorem printPieces_of_startsLine {ps : List Piece} (h : StartsLine ps) :
    ∃ ch text, printPieces ps = ch :: text ∧ ch ≠ ' ' ∧ ch ≠ '\n' ∧ endsPattern ch = false := by
  cases ps with
  | nil => exact absurd h (by simp [StartsLine])
  | cons x ps =>
    cases x with
    | char ch => exact ⟨ch, printPieces ps, rfl, h⟩
    | placed e =>
      obtain ⟨text, htext⟩ := print_true_eq e
      refine ⟨'{', text ++ ['}'] ++ printPieces ps, ?_, by decide, by decide, by decide⟩
      rw [printPieces, List.flatMap_cons, Piece.print, htext]
      simp [printPieces]

/-- Text is printed as it is, but for what would end a pattern at the start of a line. -/
theorem printChar_of_isText {atLineStart : Bool} {ch : Char} (h : isText ch = true)
    (hs : atLineStart = true → endsPattern ch = false) : printChar atLineStart ch = [ch] := by
  have hbrace : (ch == '{') = false ∧ (ch == '}') = false := by
    simp only [isText, Bool.not_eq_true', Bool.or_eq_false_iff] at h
    exact h.1
  rw [printChar, hbrace.1, hbrace.2]
  cases atLineStart with
  | false => rfl
  | true =>
    have hspecial : isSpecialAtLineStart ch = false := by
      have := hs rfl
      simp only [endsPattern, Bool.or_eq_false_iff] at this
      simp [isSpecialAtLineStart, this.1.1.1, this.1.1.2, this.1.2]
    rw [hspecial]
    rfl

/-- Blank space is printed as it is. -/
theorem printText_spaces (atLineStart : Bool) (n : Nat) :
    printText atLineStart (List.replicate n ' ') = List.replicate n ' ' ∧
      endsLine atLineStart (List.replicate n ' ') = (decide (n = 0) && atLineStart) := by
  induction n generalizing atLineStart with
  | zero => exact ⟨rfl, rfl⟩
  | succ n ih =>
    rw [List.replicate_succ, printText, endsLine_cons, show (' ' == '\n') = false from rfl,
      (ih false).1, (ih false).2]
    cases atLineStart with
    | false => exact ⟨rfl, by simp⟩
    | true => exact ⟨rfl, by simp⟩

/-- Line feeds are printed as they are and leave the start of a line behind them. -/
theorem printText_feeds (atLineStart : Bool) (n : Nat) :
    printText atLineStart (List.replicate (n + 1) '\n') = List.replicate (n + 1) '\n' ∧
      endsLine atLineStart (List.replicate (n + 1) '\n') = true := by
  induction n generalizing atLineStart with
  | zero => cases atLineStart <;> exact ⟨rfl, rfl⟩
  | succ n ih =>
    rw [List.replicate_succ, printText, endsLine_cons, show ('\n' == '\n') = true from rfl,
      (ih true).1, (ih true).2]
    cases atLineStart <;> exact ⟨rfl, rfl⟩

/-- Of two texts in a row the second one is printed as the first one leaves it: at the start of a
line or not. -/
theorem printText_append (atLineStart : Bool) (s t : List Char) :
    printText atLineStart (s ++ t) =
      printText atLineStart s ++ printText (endsLine atLineStart s) t := by
  induction s generalizing atLineStart with
  | nil => rfl
  | cons ch s ih => rw [List.cons_append, printText, printText, ih, endsLine_cons,
      List.append_assoc]

/-- What can be read is printed as it is. -/
theorem PatternLines.print_eq {P : Expression → Prop} {fixed atLineStart : Bool} {ps : List Piece}
    (h : PatternLines P fixed ps) (hstart : atLineStart = true → ps ≠ [] → StartsLine ps) :
    printPiecesFrom atLineStart ps = printPieces ps := by
  -- the induction is on the lines; only behind a break is the next piece at the start of one
  induction h generalizing atLineStart with
  | nil => rfl
  | @char _ ch ps htext _ _ ih =>
    have hline : (ch == '\n') = false := by
      simp only [isText, Bool.not_eq_true', Bool.or_eq_false_iff] at htext
      exact htext.2
    have hrest : printPiecesFrom false ps = printPieces ps := ih (by simp)
    rw [printPiecesFrom, hline, hrest,
      printChar_of_isText htext fun hs => (hstart hs (by simp)).2.2]
    rfl
  | @placed _ e ps _ _ ih =>
    have hrest : printPiecesFrom false ps = printPieces ps := ih (by simp)
    rw [printPiecesFrom, hrest]
    rfl
  | @«break» _ blankLines extra ps _ hfirst _ ih =>
    rw [breakPieces, printPiecesFrom_chars, printPieces_chars, printText_append,
      (printText_feeds atLineStart blankLines).1, (printText_feeds atLineStart blankLines).2,
      (printText_spaces true extra).1, endsLine_append, (printText_feeds _ _).2,
      (printText_spaces true extra).2, ih fun _ _ => hfirst]

end Fluent.Grammar
