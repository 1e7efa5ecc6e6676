/-
# The shape of patterns

A pattern that was read alternates between texts and placeables, its texts hold no braces and no
carriage returns, no blanks stand at its ends, and behind a line break within it comes something
that may start a line.  Otherwise the pattern would be read differently from how it is printed.

* `Pattern.WellFormed` : these rules;
* `PatternLines.linesStart` : what comes behind a line break;
* `PatternBuilder.finish_separated`, `PatternBuilder.pieces_finish` : texts that meet are joined,
  and only spaces at the end are lost;
* `ReadablePattern.wellFormed` : what was read as a pattern keeps the rules.
-/
import Mathlib.Data.List.Chain
import Fluent.Proofs.Grammar.PatternReading

namespace Fluent

open Grammar

/-- The element is a text. -/
def PatternElement.isText : PatternElement → Bool
  | .text _ => true
  | .placeable _ => false

/-- The rules that the texts of a pattern keep.  Behind a line feed and the spaces that follow it
either the text ends, and a placeable comes next, or there is a character that may start a line. -/
structure Pattern.WellFormed (p : Pattern) : Prop where
  ne_nil : p ≠ []
  texts_ne : ∀ s, .text s ∈ p → s ≠ ""
  characters : ∀ s, .text s ∈ p → '{' ∉ s.toList ∧ '}' ∉ s.toList ∧ '\r' ∉ s.toList
  separate : p.IsChain fun x y => ¬ (x.isText = true ∧ y.isText = true)
  leading : ∀ s rest, p = .text s :: rest →
    s.toList.head? ≠ some ' ' ∧ s.toList.head? ≠ some '\n'
  trailing : ∀ s before, p = before ++ [.text s] →
    s.toList.getLast? ≠ some ' ' ∧ s.toList.getLast? ≠ some '\n'
  breaks : ∀ before s after, p = before ++ .text s :: after →
    ∀ line n next, s.toList = line ++ '\n' :: (List.replicate n ' ' ++ next) →
      (next = [] ∧ ∃ e rest, after = .placeable e :: rest) ∨
        ∃ ch rest, next = ch :: rest ∧ endsPattern ch = false

/-- The piece is a space or a line feed. -/
def Piece.isBlank : Piece → Bool
  | .char ch => Fluent.isBlank ch
  | .placed _ => false

namespace Grammar

/-! ## Behind line breaks -/

/-- Behind every line feed, and the blanks that follow it, comes something that may start a line. -/
def LinesStart (ps : List Piece) : Prop :=
  ∀ rest, .char '\n' :: rest <:+ ps → StartsLine (rest.dropWhile Piece.isBlank)

/-- What may start a line is not blank. -/
theorem dropWhile_of_startsLine {ps : List Piece} (h : StartsLine ps) :
    ps.dropWhile Piece.isBlank = ps := by
  cases ps with
  | nil => rfl
  | cons x ps =>
    refine List.dropWhile_cons_of_neg ?_
    cases x with
    | char ch => simp [Piece.isBlank, isBlank, h.1, h.2.1]
    | placed e => simp [Piece.isBlank]

/-- A piece that breaks no line may be put in front. -/
theorem LinesStart.cons {x : Piece} {ps : List Piece} (hx : x ≠ .char '\n') (h : LinesStart ps) :
    LinesStart (x :: ps) := by
  intro rest hrest
  rcases List.suffix_cons_iff.1 hrest with heq | hrest
  · exact absurd (List.cons.inj heq).1.symm hx
  · exact h rest hrest

/-- Blanks may be put in front of what may start a line. -/
theorem LinesStart.blanks {blanks ps : List Piece} (hblanks : ∀ x ∈ blanks, x.isBlank = true)
    (hstart : StartsLine ps) (h : LinesStart ps) : LinesStart (blanks ++ ps) := by
  induction blanks with
  | nil => exact h
  | cons x blanks ih =>
    have htail : ∀ y ∈ blanks, y.isBlank = true := fun y hy => hblanks y (List.mem_cons_of_mem _ hy)
    intro rest hrest
    rcases List.suffix_cons_iff.1 hrest with heq | hrest
    · rw [(List.cons.inj heq).2, List.append_eq, List.dropWhile_append_of_pos htail,
        dropWhile_of_startsLine hstart]
      exact hstart
    · exact ih htail rest hrest

namespace PatternLines

variable {P : Expression → Prop} {fixed : Bool} {ps : List Piece}

/-- A line break consists of line feeds and spaces. -/
theorem isBlank_of_mem_breakPieces {blankLines extra : Nat} {x : Piece}
    (h : x ∈ breakPieces blankLines extra) : x = .char '\n' ∨ x = .char ' ' := by
  obtain ⟨ch, hch, rfl⟩ := List.mem_map.1 h
  rcases List.mem_append.1 hch with hch | hch
  · exact .inl (congrArg _ (List.eq_of_mem_replicate hch))
  · exact .inr (congrArg _ (List.eq_of_mem_replicate hch))

/-- Behind a line break comes something that may start a line. -/
theorem linesStart (h : PatternLines P fixed ps) : LinesStart ps := by
  induction h with
  | nil => exact fun rest hrest => by simp at hrest
  | char htext _ _ ih =>
    refine ih.cons fun heq => ?_
    exact (isText_iff.1 htext).2.2 (Piece.char.inj heq)
  | placed _ _ ih => exact ih.cons (by simp)
  | «break» _ hstart _ ih =>
    refine ih.blanks (fun x hx => ?_) hstart
    rcases isBlank_of_mem_breakPieces hx with rfl | rfl <;> rfl

/-- No text holds a brace or a carriage return. -/
theorem characters (h : PatternLines P fixed ps) {ch : Char} (hch : .char ch ∈ ps) :
    ch ≠ '{' ∧ ch ≠ '}' ∧ ch ≠ '\r' := by
  induction h with
  | nil => simp at hch
  | char htext hr _ ih =>
    rcases List.mem_cons.1 hch with heq | hch
    · obtain rfl := Piece.char.inj heq
      obtain ⟨hopen, hclose, -⟩ := isText_iff.1 htext
      exact ⟨hopen, hclose, hr⟩
    · exact ih hch
  | placed _ _ ih => exact ih (by simpa using hch)
  | «break» _ _ _ ih =>
    rcases List.mem_append.1 hch with hch | hch
    · rcases isBlank_of_mem_breakPieces hch with heq | heq <;> cases heq <;> decide
    · exact ih hch

/-- What stands in a placeable was read as one. -/
theorem placed_mem (h : PatternLines P fixed ps) {e : Expression} (he : .placed e ∈ ps) : P e := by
  induction h with
  | nil => simp at he
  | char _ _ _ ih => exact ih (by simpa using he)
  | placed hfirst _ ih =>
    rcases List.mem_cons.1 he with heq | he
    · obtain rfl := Piece.placed.inj heq
      exact hfirst
    · exact ih he
  | «break» _ _ _ ih =>
    rcases List.mem_append.1 he with he | he
    · rcases isBlank_of_mem_breakPieces he with heq | heq <;> cases heq
    · exact ih he

end PatternLines

/-! ## What the builder makes -/

/-- Texts are not empty, and none follows another. -/
structure Separated (xs : List PatternElement) : Prop where
  texts : ∀ s, .text s ∈ xs → s ≠ ""
  chain : xs.IsChain fun x y => ¬ (x.isText = true ∧ y.isText = true)

/-- The empty pattern has no texts side by side. -/
theorem Separated.nil : Separated [] :=
  ⟨by simp, .nil⟩

/-- A placeable may stand before any element. -/
theorem Separated.placeable {xs : List PatternElement} (h : Separated xs) (e : Expression) :
    Separated (.placeable e :: xs) := by
  refine ⟨fun s hs => h.texts s (by simpa using hs), List.isChain_cons.2 ⟨fun y _ => ?_, h.chain⟩⟩
  simp [PatternElement.isText]

/-- A text that is not empty may stand before a placeable or at the end. -/
theorem Separated.text {xs : List PatternElement} (h : Separated xs) {s : String} (hs : s ≠ "")
    (hhead : ∀ x ∈ xs.head?, x.isText = false) : Separated (.text s :: xs) := by
  refine ⟨fun t ht => ?_, List.isChain_cons.2 ⟨fun y hy => ?_, h.chain⟩⟩
  · rcases List.mem_cons.1 ht with heq | ht
    · obtain rfl := PatternElement.text.inj heq
      exact hs
    · exact h.texts t ht
  · simp [hhead y hy]

/-- A pattern with no texts side by side has none backwards. -/
theorem Separated.reverse {xs : List PatternElement} (h : Separated xs) : Separated xs.reverse := by
  refine ⟨fun s hs => h.texts s (List.mem_reverse.1 hs), List.isChain_reverse.2 ?_⟩
  exact h.chain.imp fun x y hxy hyx => hxy hyx.symm

namespace PatternBuilder

/-- The elements are separated, and the last of them is no text: what is collected stands behind
it. -/
structure Separated (b : PatternBuilder) : Prop where
  elements : Grammar.Separated b.elements
  last : ∀ x ∈ b.elements.head?, x.isText = false

/-- The builder starts without texts side by side. -/
theorem Separated.empty : PatternBuilder.empty.Separated :=
  ⟨.nil, by simp [PatternBuilder.empty]⟩

/-- Pushed text joins the pending text, so no two texts come to stand side by side. -/
theorem Separated.pushText {b : PatternBuilder} (h : b.Separated) (text : List Char) :
    (b.pushText text).Separated :=
  ⟨h.elements, h.last⟩

/-- The flushed pattern has no texts side by side. -/
theorem Separated.flush {b : PatternBuilder} (h : b.Separated) : Grammar.Separated b.flush := by
  unfold PatternBuilder.flush
  split
  · exact h.elements
  · rename_i hne
    refine h.elements.text (fun hempty => hne ?_) h.last
    have hnil : b.text.reverse = [] := by simpa using congrArg String.toList hempty
    simpa using hnil

/-- A placeable is pushed behind the flushed text. -/
theorem Separated.pushPlaceable {b : PatternBuilder} (h : b.Separated) (e : Expression) :
    (b.pushPlaceable e).Separated :=
  ⟨h.flush.placeable e, by simp [PatternBuilder.pushPlaceable, PatternElement.isText]⟩

/-- Pushing pieces of any kind keeps texts apart. -/
theorem Separated.pushAll {b : PatternBuilder} (h : b.Separated) (ps : List Piece) :
    (b.pushAll ps).Separated := by
  induction ps generalizing b with
  | nil => exact h
  | cons x ps ih =>
    cases x with
    | char ch => exact ih (h.pushText [ch])
    | placed e => exact ih (h.pushPlaceable e)

/-- What is made is separated and not empty. -/
theorem finish_separated {b : PatternBuilder} (h : b.Separated) {p : Pattern}
    (hp : b.finish = some p) : Grammar.Separated p ∧ p ≠ [] := by
  have htrim : Separated { b with text := b.text.dropWhile (· == ' ') } := ⟨h.elements, h.last⟩
  unfold finish at hp
  dsimp only at hp
  split at hp
  · cases hp
  · rename_i hne
    obtain rfl := Option.some.inj hp
    exact ⟨htrim.flush.reverse, by simpa using hne⟩

/-- Only spaces at the end are lost. -/
theorem pieces_finish {b : PatternBuilder} {p : Pattern} (hp : b.finish = some p) :
    ∃ spaces, b.pieces = p.pieces ++ spaces := by
  unfold finish at hp
  dsimp only at hp
  split at hp
  · cases hp
  · obtain rfl := Option.some.inj hp
    rw [pieces_flush]
    refine ⟨(b.text.takeWhile (· == ' ')).reverse.map .char, ?_⟩
    have htext : b.text = b.text.takeWhile (· == ' ') ++ b.text.dropWhile (· == ' ') :=
      List.takeWhile_append_dropWhile.symm
    rw [pieces, pieces, List.append_assoc, ← List.map_append, ← List.reverse_append, ← htext]

end PatternBuilder

/-! ## What was read -/

namespace ReadablePattern

variable {P : Expression → Prop} {fixed : Bool} {p : Pattern}

/-- A readable pattern is not empty and has no texts side by side. -/
theorem separated (h : ReadablePattern P fixed p) : Separated p ∧ p ≠ [] :=
  PatternBuilder.finish_separated (PatternBuilder.Separated.empty.pushAll _) h.finish

/-- The last piece is no space. -/
theorem getLast?_ne_space (h : ReadablePattern P fixed p) :
    p.pieces.getLast? ≠ some (.char ' ') := by
  intro hlast
  obtain ⟨init, hinit⟩ := List.getLast?_eq_some_iff.1 hlast
  have hfinish := h.finish
  rw [hinit, PatternBuilder.finish_pushAll_space] at hfinish
  -- without the space fewer pieces were collected than the pattern has
  obtain ⟨spaces, hpieces⟩ := PatternBuilder.pieces_finish hfinish
  have hlength := congrArg List.length hpieces
  rw [PatternBuilder.pieces_pushAll, hinit] at hlength
  simp [PatternBuilder.pieces, PatternBuilder.empty, Pattern.pieces] at hlength

/-- The last piece is no line feed. -/
theorem getLast?_ne_feed (h : ReadablePattern P fixed p) :
    p.pieces.getLast? ≠ some (.char '\n') := by
  intro hlast
  obtain ⟨init, hinit⟩ := List.getLast?_eq_some_iff.1 hlast
  exact h.lines.linesStart [] ⟨init, hinit.symm⟩

/-- The first piece is neither a space nor a line feed. -/
theorem head?_ne (h : ReadablePattern P fixed p) {ch : Char}
    (hch : p.pieces.head? = some (.char ch)) : ch ≠ ' ' ∧ ch ≠ '\n' := by
  obtain ⟨rest, hrest⟩ := List.head?_eq_some_iff.1 hch
  have hopen := h.opening
  rw [hrest] at hopen
  cases fixed with
  | true => exact ⟨hopen.1, hopen.2.1⟩
  | false =>
    obtain ⟨first, qs, heq, hspecial⟩ := hopen
    obtain rfl := Piece.char.inj (List.cons.inj heq).1
    constructor <;> rintro rfl <;> exact absurd hspecial (by decide)

/-- A character of one of the texts is a piece of the pattern. -/
theorem mem_pieces {s : String} (hs : .text s ∈ p) {ch : Char} (hch : ch ∈ s.toList) :
    .char ch ∈ p.pieces :=
  List.mem_flatMap.2 ⟨_, hs, List.mem_map_of_mem hch⟩

/-- A text in the middle of a pattern is read piece by piece there. -/
theorem pieces_split (before after : Pattern) (s : String) :
    Pattern.pieces (before ++ .text s :: after) =
      before.pieces ++ (s.toList.map .char ++ after.pieces) := by
  simp [Pattern.pieces, PatternElement.pieces]

/-- What comes behind a line break of a text. -/
theorem breaks (h : ReadablePattern P fixed p) {before after : Pattern} {s : String}
    (hp : p = before ++ .text s :: after) {line next : List Char} {n : Nat}
    (hs : s.toList = line ++ '\n' :: (List.replicate n ' ' ++ next)) :
    (next = [] ∧ ∃ e rest, after = .placeable e :: rest) ∨
      ∃ ch rest, next = ch :: rest ∧ endsPattern ch = false := by
  have hstart := h.lines.linesStart
    ((List.replicate n ' ').map .char ++ (next.map .char ++ after.pieces)) (by
      rw [hp, pieces_split, hs]
      exact ⟨before.pieces ++ line.map .char, by simp⟩)
  rw [List.dropWhile_append_of_pos (by simp [Piece.isBlank, isBlank])] at hstart
  cases next with
  | nil =>
    refine .inl ⟨rfl, ?_⟩
    cases after with
    | nil => exact hstart.elim
    | cons x rest =>
      cases x with
      | placeable e => exact ⟨e, rest, rfl⟩
      | text t =>
        -- texts that meet would have been joined
        have hchain := hp ▸ h.separated.1.chain
        have hmeet := (List.isChain_cons_cons.1 (List.isChain_append.1 hchain).2.1).1
        exact absurd ⟨rfl, rfl⟩ hmeet
  | cons ch rest =>
    refine .inr ⟨ch, rest, rfl, ?_⟩
    by_cases hblank : isBlank ch = true
    · simp only [isBlank, Bool.or_eq_true, beq_iff_eq] at hblank
      rcases hblank with rfl | rfl <;> rfl
    · rw [List.map_cons, List.cons_append,
        List.dropWhile_cons_of_neg (by simpa [Piece.isBlank] using hblank)] at hstart
      exact hstart.2.2

/-- **What was read as a pattern keeps the rules of patterns.** -/
theorem wellFormed (h : ReadablePattern P fixed p) : p.WellFormed := by
  obtain ⟨hseparated, hne⟩ := h.separated
  refine ⟨hne, hseparated.texts, fun s hs => ?_, hseparated.chain, fun s rest hp => ?_,
    fun s before hp => ?_, fun before s after hp line n next hs => h.breaks hp hs⟩
  · have hch : ∀ {ch}, ch ∈ s.toList → ch ≠ '{' ∧ ch ≠ '}' ∧ ch ≠ '\r' :=
      fun hmem => h.lines.characters (mem_pieces hs hmem)
    exact ⟨fun hmem => (hch hmem).1 rfl, fun hmem => (hch hmem).2.1 rfl,
      fun hmem => (hch hmem).2.2 rfl⟩
  · have hhead : ∀ {ch}, s.toList.head? = some ch → ch ≠ ' ' ∧ ch ≠ '\n' := by
      intro ch hch
      refine h.head?_ne ?_
      rw [hp, Pattern.pieces_cons, PatternElement.pieces, List.head?_append, List.head?_map, hch]
      rfl
    exact ⟨fun hch => (hhead hch).1 rfl, fun hch => (hhead hch).2 rfl⟩
  · have hlast : ∀ {ch}, s.toList.getLast? = some ch → p.pieces.getLast? = some (.char ch) := by
      intro ch hch
      have hpieces : p.pieces = Pattern.pieces before ++ s.toList.map .char := by
        rw [hp, pieces_split]
        exact congrArg _ (List.append_nil _)
      rw [hpieces, List.getLast?_append, List.getLast?_map, hch]
      rfl
    exact ⟨fun hch => h.getLast?_ne_space (hlast hch), fun hch => h.getLast?_ne_feed (hlast hch)⟩

end ReadablePattern

end Grammar

end Fluent
