/-
# Patterns as pieces

A pattern is a list of texts and placeables in which texts are as long as they can be.  Cut into
single characters and placeables it is a plain list, which is read and printed piece by piece.

* `printElements_eq` : a pattern is printed piece by piece;
* `finish_pushAll` : collecting pieces makes the pattern that is cut into just these pieces;
* `finish_pushAll_space` : a space at the end is lost.
-/
import Fluent.Grammar.Layout
import Fluent.Proofs.Text.Indent

namespace Fluent

/-- A character of a text, or a placeable. -/
inductive Piece
  | char (ch : Char)
  | placed (e : Expression)

/-- The pieces of an element. -/
def PatternElement.pieces : PatternElement → List Piece
  | .text value => value.toList.map .char
  | .placeable e => [.placed e]

/-- The pieces of a pattern. -/
def Pattern.pieces (p : Pattern) : List Piece :=
  p.flatMap PatternElement.pieces

/-- The pieces of a pattern are those of its first element and then those of the others. -/
theorem Pattern.pieces_cons (element : PatternElement) (p : Pattern) :
    Pattern.pieces (element :: p) = element.pieces ++ p.pieces :=
  List.flatMap_cons

/-! ## Printing -/

/-- How pieces are printed, at the start of a line or behind something. -/
def printPiecesFrom (atLineStart : Bool) : List Piece → List Char
  | [] => []
  | .char ch :: ps => printChar atLineStart ch ++ printPiecesFrom (ch == '\n') ps
  | .placed e :: ps => e.print true ++ printPiecesFrom false ps

/-- Characters are printed as a text, in front of what follows them. -/
theorem printPiecesFrom_chars (atLineStart : Bool) (text : List Char) (ps : List Piece) :
    printPiecesFrom atLineStart (text.map .char ++ ps) =
      printText atLineStart text ++ printPiecesFrom (endsLine atLineStart text) ps := by
  induction text generalizing atLineStart with
  | nil => rfl
  | cons ch text ih =>
    rw [List.map_cons, List.cons_append, printPiecesFrom, ih, printText, endsLine_cons,
      List.append_assoc]

/-- A pattern is printed piece by piece. -/
theorem printElements_eq (atLineStart : Bool) (p : Pattern) :
    printElements atLineStart p = printPiecesFrom atLineStart p.pieces := by
  induction p generalizing atLineStart with
  | nil => rw [printElements]; rfl
  | cons element rest ih =>
    cases element with
    | text value =>
      rw [printElements, ih, Pattern.pieces_cons, PatternElement.pieces, printPiecesFrom_chars]
    | placeable e =>
      rw [printElements, ih]
      rfl

/-- The piece takes a line of its own. -/
def Piece.breaksLine : Piece → Bool
  | .char ch => ch == '\n'
  | .placed (.select _) => true
  | .placed _ => false

/-- A pattern takes several lines if one of its pieces does. -/
theorem any_isMultiline_eq (p : Pattern) :
    p.any PatternElement.isMultiline = p.pieces.any Piece.breaksLine := by
  rw [Pattern.pieces, List.any_flatMap]
  congr
  funext element
  cases element with
  | text value =>
    rw [PatternElement.isMultiline, PatternElement.pieces, List.any_map, List.contains_eq_any_beq]
    congr
    funext ch
    exact Bool.beq_comm
  | placeable e => cases e <;> rfl

namespace Grammar.PatternBuilder

/-! ## Collecting pieces -/

/-- Adds a piece. -/
def push (b : PatternBuilder) : Piece → PatternBuilder
  | .char ch => b.pushText [ch]
  | .placed e => b.pushPlaceable e

/-- Adds pieces one after the other. -/
def pushAll (b : PatternBuilder) (ps : List Piece) : PatternBuilder :=
  ps.foldl push b

/-- The pieces that were added. -/
def pieces (b : PatternBuilder) : List Piece :=
  Pattern.pieces b.elements.reverse ++ b.text.reverse.map .char

/-- Two lists of pieces are pushed one after the other. -/
theorem pushAll_append (b : PatternBuilder) (ps qs : List Piece) :
    b.pushAll (ps ++ qs) = (b.pushAll ps).pushAll qs :=
  List.foldl_append

/-- A text is added character by character. -/
theorem pushAll_chars (b : PatternBuilder) (text : List Char) :
    b.pushAll (text.map .char) = b.pushText text := by
  induction text generalizing b with
  | nil => rfl
  | cons ch text ih =>
    rw [List.map_cons, pushAll, List.foldl_cons]
    show (b.push (.char ch)).pushAll (text.map .char) = _
    rw [ih]
    simp [push, pushText]

/-- Flushing changes no pieces: the pending text becomes an element. -/
theorem pieces_flush (b : PatternBuilder) : Pattern.pieces b.flush.reverse = b.pieces := by
  unfold flush pieces
  split
  · rename_i h
    simp [List.isEmpty_iff.1 h]
  · simp [Pattern.pieces, PatternElement.pieces]

/-- A pushed piece is the last one. -/
theorem pieces_push (b : PatternBuilder) (x : Piece) : (b.push x).pieces = b.pieces ++ [x] := by
  cases x with
  | char ch => simp [push, pushText, pieces]
  | placed e =>
    have hflush := b.pieces_flush
    rw [push, pushPlaceable]
    simp only [pieces, List.reverse_cons, List.reverse_nil, List.map_nil, List.append_nil]
    rw [Pattern.pieces, List.flatMap_append]
    show Pattern.pieces b.flush.reverse ++ [.placed e] = _
    rw [hflush]
    rfl

/-- Pushed pieces are the last ones, in their order. -/
theorem pieces_pushAll (b : PatternBuilder) (ps : List Piece) :
    (b.pushAll ps).pieces = b.pieces ++ ps := by
  induction ps generalizing b with
  | nil => simp [pushAll]
  | cons x ps ih =>
    rw [pushAll, List.foldl_cons]
    show ((b.push x).pushAll ps).pieces = _
    rw [ih, pieces_push, List.append_assoc]
    rfl

/-! ## The end of a pattern -/

/-- A space at the end is lost. -/
theorem finish_pushAll_space (b : PatternBuilder) (ps : List Piece) :
    (b.pushAll (ps ++ [.char ' '])).finish = (b.pushAll ps).finish := by
  rw [pushAll_append]
  show ((b.pushAll ps).pushText [' ']).finish = _
  simp [finish, pushText, flush]

/-- What ends in no space is kept as it was collected. -/
theorem finish_pushAll {ps : List Piece} (hne : ps ≠ []) (hlast : ps.getLast? ≠ some (.char ' ')) :
    ∃ p, (empty.pushAll ps).finish = some p ∧ Pattern.pieces p = ps := by
  have hpieces : (empty.pushAll ps).pieces = ps := by
    rw [pieces_pushAll]
    rfl
  -- the last piece is no space, so nothing is cut off
  have htrim : (empty.pushAll ps).text.dropWhile (· == ' ') = (empty.pushAll ps).text := by
    cases htext : (empty.pushAll ps).text with
    | nil => rfl
    | cons ch rest =>
      refine List.dropWhile_cons_of_neg fun hspace => hlast ?_
      have hspace : ch = ' ' := by simpa using hspace
      rw [← hpieces, pieces, htext, hspace, List.reverse_cons, List.map_append]
      simp
  have hflush := (empty.pushAll ps).pieces_flush
  rw [hpieces] at hflush
  refine ⟨(empty.pushAll ps).flush.reverse, ?_, hflush⟩
  unfold finish
  rw [htrim]
  refine if_neg fun hnil => hne ?_
  have hnil : (empty.pushAll ps).flush = [] := by simpa using hnil
  rw [← hflush, hnil]
  rfl

end Grammar.PatternBuilder

end Fluent
