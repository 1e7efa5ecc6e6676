/-
# How indented lines are read

A text without placeables may go on over several lines.  The first line below that is not blank sets
the indentation that all of them share; what a line has beyond it belongs to the text.  Blank lines
stay as empty lines between others and are dropped at the ends, and so are the spaces at the very
end.

* `FurtherLine` : the lines below the first one, blank or indented;
* `unindented` : the text that first line and further lines stand for;
* `pattern_indented_lines` : it is what is read.
-/
import Mathlib.Data.List.DropRight
import Fluent.Proofs.Grammar.Variants

namespace Fluent.Grammar

/-! ## Lines of text -/

/-- A line that goes on with a pattern: spaces, and then something that may start a line. -/
structure IndentedText where
  indent : Nat
  text : List Char
  indent_pos : 0 < indent
  starts : ∃ ch, text.head? = some ch ∧ ch ≠ ' ' ∧ endsPattern ch = false
  isText : text.all isText = true

/-- A line below the first one: spaces only, or an indented text. -/
inductive FurtherLine
  | blank (spaces : Nat)
  | content (line : IndentedText)

namespace FurtherLine

/-- The line holds nothing but spaces. -/
def holdsNothing : FurtherLine → Bool
  | .blank _ => true
  | .content _ => false

/-- The line as it stands in the source. -/
def source : FurtherLine → List Char
  | .blank spaces => List.replicate spaces ' '
  | .content line => List.replicate line.indent ' ' ++ line.text

/-- What the line means where the lines share the given indentation. -/
def meaning (common : Nat) : FurtherLine → List Char
  | .blank _ => []
  | .content line => List.replicate (line.indent - common) ' ' ++ line.text

/-- The indentation of the first line that is not blank. -/
def commonIndent : List FurtherLine → Nat
  | [] => 0
  | .blank _ :: lines => commonIndent lines
  | .content line :: _ => line.indent

/-- The lines without the blank ones at their end. -/
def withoutLastBlank (lines : List FurtherLine) : List FurtherLine :=
  lines.rdropWhile holdsNothing

/-- Further lines in the source, each behind a line feed. -/
def sources (lines : List FurtherLine) : List Char :=
  lines.flatMap fun line => '\n' :: line.source

/-- What further lines mean, each behind a line feed. -/
def meanings (common : Nat) (lines : List FurtherLine) : List Char :=
  lines.flatMap fun line => '\n' :: line.meaning common

end FurtherLine

open FurtherLine

/-- The text that a first line and further lines stand for: the common indentation is taken away
and blank lines are emptied; blank lines at the ends and the spaces at the end of the last line are
dropped. -/
def unindented (first : List Char) (lines : List FurtherLine) : List Char :=
  let kept := (withoutLastBlank lines).map (meaning (commonIndent lines))
  ((joinLines (first :: kept)).dropWhile isBlank).rdropWhile (· == ' ')

/-- A text as a pattern; none if nothing is left. -/
def textPattern? (text : List Char) : Option Pattern :=
  if text = [] then none else some [.text (String.ofList text)]

/-- Behind the lines the text ends, or a line follows that is not blank and continues no pattern: it
is not indented, or starts with a character that ends patterns. -/
def EndsLines (rest : List Char) : Prop :=
  rest = [] ∨ ∃ spaces ch more, rest = '\n' :: (List.replicate spaces ' ' ++ ch :: more) ∧
    ch ≠ ' ' ∧ ch ≠ '\n' ∧ (spaces = 0 ∨ endsPattern ch = true)

/-! ## Blank lines and others -/

/-- Further lines are all blank, or there is a first one that is not. -/
theorem blank_or_content (lines : List FurtherLine) :
    (∃ blanks : List Nat, lines = blanks.map .blank) ∨
      ∃ (blanks : List Nat) (line : IndentedText) (more : List FurtherLine),
        lines = blanks.map .blank ++ .content line :: more := by
  induction lines with
  | nil => exact .inl ⟨[], rfl⟩
  | cons first lines ih =>
    cases first with
    | content line => exact .inr ⟨[], line, lines, rfl⟩
    | blank spaces =>
      rcases ih with ⟨blanks, rfl⟩ | ⟨blanks, line, more, rfl⟩
      · exact .inl ⟨spaces :: blanks, rfl⟩
      · exact .inr ⟨spaces :: blanks, line, more, rfl⟩

/-- Blank lines alone mean nothing at the end. -/
theorem withoutLastBlank_blanks (blanks : List Nat) :
    withoutLastBlank (blanks.map .blank) = [] :=
  List.rdropWhile_eq_nil_iff.2 (List.forall_mem_map.2 fun _ _ => rfl)

/-- Blank lines before another line are kept. -/
theorem withoutLastBlank_append (before : List FurtherLine) (line : IndentedText)
    (more : List FurtherLine) : withoutLastBlank (before ++ .content line :: more) =
      before ++ .content line :: withoutLastBlank more := by
  -- the induction is on the lines behind, taken away from the end
  induction more using List.reverseRecOn with
  | nil => exact List.rdropWhile_concat_neg _ _ _ Bool.false_ne_true
  | append_singleton more last ih =>
    have hassoc : before ++ .content line :: (more ++ [last]) =
        (before ++ .content line :: more) ++ [last] := by simp
    rw [hassoc, withoutLastBlank, withoutLastBlank]
    by_cases hlast : last.holdsNothing = true
    · rw [List.rdropWhile_concat_pos _ _ _ hlast, List.rdropWhile_concat_pos _ _ _ hlast]
      exact ih
    · rw [List.rdropWhile_concat_neg _ _ _ hlast, List.rdropWhile_concat_neg _ _ _ hlast, ← hassoc]

/-- The common indent is taken from the lines with content: blank ones in front do not count. -/
theorem commonIndent_append (blanks : List Nat) (line : IndentedText) (more : List FurtherLine) :
    commonIndent (blanks.map .blank ++ .content line :: more) = line.indent := by
  induction blanks with
  | nil => rfl
  | cons spaces blanks ih => exact ih

/-- Blank lines mean line feeds. -/
theorem meanings_blanks (common : Nat) (blanks : List Nat) :
    meanings common (blanks.map .blank) = List.replicate blanks.length '\n' := by
  induction blanks with
  | nil => rfl
  | cons spaces blanks ih =>
    rw [List.length_cons, List.replicate_succ, ← ih]
    rfl

/-- Each further line stands behind a line feed. -/
theorem sources_cons (line : FurtherLine) (lines : List FurtherLine) :
    sources (line :: lines) = '\n' :: (line.source ++ sources lines) :=
  List.flatMap_cons

/-- The texts of two groups of lines stand one behind the other. -/
theorem sources_append (lines more : List FurtherLine) :
    sources (lines ++ more) = sources lines ++ sources more :=
  List.flatMap_append

/-- The meanings of two groups of lines stand one behind the other. -/
theorem meanings_append (common : Nat) (lines more : List FurtherLine) :
    meanings common (lines ++ more) = meanings common lines ++ meanings common more :=
  List.flatMap_append

/-- Joined lines are the first one and then each other behind a line feed. -/
theorem joinLines_cons (first : List Char) (lines : List (List Char)) :
    joinLines (first :: lines) = first ++ lines.flatMap ('\n' :: ·) := by
  induction lines generalizing first with
  | nil => simp [joinLines, List.intercalate]
  | cons line lines ih => rw [joinLines_cons_cons, ih, List.flatMap_cons, List.cons_append]

/-! ## From line to line -/

/-- Lines end where the text ends or at a line feed. -/
theorem current_of_sources {lines : List FurtherLine} {rest : List Char} (hrest : EndsLines rest)
    {c : Cursor} (hc : c.rest = sources lines ++ rest) :
    c.current = none ∨ c.current = some '\n' := by
  rw [Cursor.current, hc]
  cases lines with
  | cons line lines => exact .inr rfl
  | nil =>
    rcases hrest with rfl | ⟨spaces, ch, more, rfl, -⟩
    · exact .inl rfl
    · exact .inr rfl

/-- A run of characters that are no line feeds stops where the further lines start. -/
theorem stops_of_sources {lines : List FurtherLine} {rest : List Char} (hrest : EndsLines rest)
    {c : Cursor} (hc : c.rest = sources lines ++ rest) {test : Char → Bool}
    (hfeed : test '\n' = false) : Stops test c.rest := by
  intro ch hch
  rcases current_of_sources hrest hc with h | h
  · exact absurd (h.symm.trans hch) (by simp)
  · obtain rfl := Option.some.inj (h.symm.trans hch)
    exact hfeed

/-- Blank lines are counted on the way to a line that continues the pattern. -/
theorem continuationFrom?_content (blanks : List Nat) (line : IndentedText) {before : Nat}
    {c mid : Cursor}
    (hp : c.Passes (sources (blanks.map .blank) ++ '\n' :: List.replicate line.indent ' ') mid)
    (hmid : mid.current = line.text.head?) :
    continuationFrom? before c.bump = some ⟨before + blanks.length, line.indent, mid⟩ := by
  induction blanks generalizing before c with
  | nil =>
    obtain ⟨ch, hch, hspace, hends⟩ := line.starts
    have hfeed : ch ≠ '\n' :=
      (isText_iff.1 (List.all_eq_true.1 line.isText ch (List.mem_of_head? hch))).2.2
    obtain ⟨start, hfirst, hindent⟩ := hp.uncons
    rw [Cursor.bump_eq hfirst]
    exact continuationFrom?_of_passes line.indent_pos (hmid.trans hch) hspace hfeed hends hindent
  | cons spaces blanks ih =>
    rw [List.map_cons, sources_cons, List.cons_append, List.append_assoc] at hp
    obtain ⟨start, hfirst, hline⟩ := hp.uncons
    obtain ⟨next, hspaces, hnext⟩ := hline.split
    have hfeed : next.current = some '\n' := by
      cases blanks with
      | nil => exact hnext.current_cons
      | cons => exact hnext.current_cons
    have hskip : start.skipBlankInline = next :=
      Cursor.skipWhile_eq_iff.2 ⟨_, hspaces, spaces_replicate spaces,
        Cursor.stops_of_current hfeed (by decide)⟩
    rw [Cursor.bump_eq hfirst, continuationFrom?_eq, hskip, hfeed]
    dsimp only
    rw [if_pos rfl, ih hnext, List.length_cons, Nat.add_assoc, Nat.add_comm 1]

/-- Behind blank lines at the end no line continues the pattern. -/
theorem continuationFrom?_rest (blanks : List Nat) {rest : List Char} (hrest : EndsLines rest)
    {before : Nat} {c : Cursor} (hfeed : c.current = some '\n')
    (hc : c.rest = sources (blanks.map .blank) ++ rest) :
    continuationFrom? before c.bump = none := by
  induction blanks generalizing before c with
  | nil =>
    rcases hrest with rfl | ⟨spaces, ch, more, rfl, hspace, hline, hends⟩
    · rw [Cursor.current, hc] at hfeed
      cases hfeed
    · have hp : c.Passes (['\n'] ++ List.replicate spaces ' ') _ :=
        Cursor.passes_of_rest (by simpa [sources] using hc)
      obtain ⟨start, hfirst, hindent⟩ := hp.split
      have hstop : Stops (· == ' ') (ch :: more) := stops_cons.2 (by simpa using hspace)
      have hlead : start.leading (· == ' ') = List.replicate spaces ' ' :=
        Cursor.leading_eq hindent (spaces_replicate spaces) hstop
      have hskip : start.skipBlankInline = _ :=
        Cursor.skipWhile_eq_iff.2 ⟨_, hindent, spaces_replicate spaces, hstop⟩
      rw [Cursor.bump_eq hfirst, continuationFrom?_eq, hskip, hlead, List.length_replicate]
      dsimp only [Cursor.current, List.head?_cons]
      rw [if_neg hline, if_pos (by simpa using hends)]
  | cons spaces blanks ih =>
    rw [List.map_cons, sources_cons, List.cons_append, List.append_assoc] at hc
    obtain ⟨next, hnext, hp⟩ : ∃ next : Cursor, next.rest = sources (blanks.map .blank) ++ rest ∧
        c.Passes (['\n'] ++ List.replicate spaces ' ') next :=
      ⟨⟨sources (blanks.map .blank) ++ rest, _⟩, rfl, Cursor.passes_of_rest hc⟩
    obtain ⟨start, hfirst, hindent⟩ := hp.split
    have hcurrent := current_of_sources hrest hnext
    have hskip : start.skipBlankInline = next :=
      Cursor.skipWhile_eq_iff.2 ⟨_, hindent, spaces_replicate spaces,
        stops_of_sources hrest hnext (by decide)⟩
    rw [Cursor.bump_eq hfirst, continuationFrom?_eq, hskip]
    rcases hcurrent with h | h
    · rw [h]
    · rw [h]
      exact ih h hnext

/-- Before blank lines at the end the pattern ends. -/
theorem patternEnds_of_blanks (blanks : List Nat) {rest : List Char} (hrest : EndsLines rest)
    {c : Cursor} (hc : c.rest = sources (blanks.map .blank) ++ rest) : PatternEnds c :=
  (current_of_sources hrest hc).imp_right fun hfeed =>
    ⟨hfeed, continuationFrom?_rest blanks hrest hfeed hc⟩

/-! ## Reading the lines -/

/-- Text before further lines is read as it is. -/
theorem patternFrom_text (deep : Nested) (b : PatternBuilder) (common : Option Nat)
    {text : List Char} (htext : text.all isText = true) {lines : List FurtherLine}
    {rest : List Char} (hrest : EndsLines rest) {c mid : Cursor} (hp : c.Passes text mid)
    (hmid : mid.rest = sources lines ++ rest) :
    patternFrom deep b common c = patternFrom deep (b.pushText text) common mid := by
  have hstop : Stops isText mid.rest := stops_of_sources hrest hmid (by decide)
  have hall := List.all_eq_true.1 htext
  have hskip : c.skipWhile isText = mid := Cursor.skipWhile_eq_iff.2 ⟨_, hp, hall, hstop⟩
  rw [patternFrom_leading, Cursor.leading_eq hp hall hstop, hskip]

/-- Behind blank lines a further line is read; what lies before it is dropped if nothing has been
read yet. -/
theorem patternFrom_content (deep : Nested) (b : PatternBuilder) (common : Option Nat)
    (blanks : List Nat) (line : IndentedText) {more : List FurtherLine} {rest : List Char}
    (hrest : EndsLines rest) {c : Cursor}
    (hc : c.rest = sources (blanks.map .blank ++ .content line :: more) ++ rest) :
    let shared := common.getD line.indent
    ∃ next, c.Passes (sources (blanks.map .blank ++ [.content line])) next ∧
      next.rest = sources more ++ rest ∧
      patternFrom deep b common c = patternFrom deep
        (b.pushText (if b.isEmpty then line.text
          else meanings shared (blanks.map .blank ++ [.content line]))) (some shared) next := by
  intro shared
  have hsource : sources (blanks.map .blank ++ [.content line]) =
      (sources (blanks.map .blank) ++ '\n' :: List.replicate line.indent ' ') ++ line.text := by
    rw [sources_append, sources_cons]
    simp [source, sources]
  have hmeaning : meanings shared (blanks.map .blank ++ [.content line]) =
      continuationText ⟨blanks.length, line.indent, c⟩ shared ++ line.text := by
    rw [meanings_append, meanings_blanks, continuationText, List.replicate_succ']
    simp [meanings, meaning]
  obtain ⟨next, hnext, hp⟩ : ∃ next : Cursor, next.rest = sources more ++ rest ∧
      c.Passes (sources (blanks.map .blank ++ [.content line])) next :=
    ⟨⟨sources more ++ rest, _⟩, rfl, Cursor.passes_of_rest (by
      rw [hc, ← List.append_assoc, ← sources_append, List.append_assoc]
      rfl)⟩
  refine ⟨next, hp, hnext, ?_⟩
  rw [hsource] at hp
  -- the break is passed first, then the text of the line
  obtain ⟨mid, hbreak, htext⟩ := hp.split
  obtain ⟨ch, hch, -⟩ := line.starts
  obtain ⟨text, hcons⟩ := List.head?_eq_some_iff.1 hch
  have hmid : mid.current = line.text.head? := by
    rw [hcons] at htext ⊢
    exact htext.current_cons
  have hfeed : c.current = some '\n' := by
    cases blanks with
    | nil => exact hbreak.current_cons
    | cons => exact hbreak.current_cons
  -- the line is found as the continuation, with the blank lines before it counted
  have hfound : continuation? c = some ⟨blanks.length, line.indent, mid⟩ := by
    rw [continuation?, continuationFrom?_content blanks line hbreak hmid, Nat.zero_add]
  rw [patternFrom_line deep b common hfeed hfound, hmeaning]
  dsimp only
  rw [patternFrom_text deep _ _ line.isText hrest htext hnext]
  cases b.isEmpty with
  | true => rfl
  | false => simp [PatternBuilder.pushText, continuationText, shared]

/-- Behind a text further lines are read to their end. -/
theorem patternFrom_sources (deep : Nested) {lines : List FurtherLine} {rest : List Char}
    (hrest : EndsLines rest) {b : PatternBuilder} (hb : b.isEmpty = false) (common : Option Nat)
    {c : Cursor} (hc : c.rest = sources lines ++ rest) :
    ∃ stop, c.Passes (sources (withoutLastBlank lines)) stop ∧ PatternEnds stop ∧
      patternFrom deep b common c = .ok ((b.pushText (meanings (common.getD (commonIndent lines))
        (withoutLastBlank lines))).finish, stop) := by
  induction hn : lines.length using Nat.strongRecOn generalizing lines b common c with
  | _ n ih =>
    -- each round takes the blank lines before the next other line together with that line
    rcases blank_or_content lines with ⟨blanks, rfl⟩ | ⟨blanks, line, more, rfl⟩
    · have hends := patternEnds_of_blanks blanks hrest hc
      rw [withoutLastBlank_blanks]
      exact ⟨c, .refl c, hends, patternFrom_of_ends deep b common hends⟩
    · obtain ⟨next, hp, hnext, heq⟩ := patternFrom_content deep b common blanks line hrest hc
      have hshorter : more.length < n := by
        rw [← hn]
        simp
        omega
      have hne : (b.pushText (meanings (common.getD line.indent)
          (blanks.map .blank ++ [.content line]))).isEmpty = false := by
        simp [PatternBuilder.isEmpty, PatternBuilder.pushText, meanings]
      obtain ⟨stop, hstop, hends, hread⟩ :=
        ih more.length hshorter hne (some (common.getD line.indent)) hnext rfl
      rw [withoutLastBlank_append, commonIndent_append, ← List.singleton_append,
        ← List.append_assoc, sources_append, meanings_append]
      refine ⟨stop, hp.append hstop, hends, ?_⟩
      rw [heq, hb]
      exact hread.trans (by simp [PatternBuilder.pushText])

/-- A text that was collected is the pattern, without the spaces at its end. -/
theorem finish_text (text : List Char) :
    (PatternBuilder.empty.pushText text).finish = textPattern? (text.rdropWhile (· == ' ')) := by
  have hrev : text.rdropWhile (· == ' ') = (text.reverse.dropWhile (· == ' ')).reverse := rfl
  rw [hrev, PatternBuilder.finish, PatternBuilder.pushText, PatternBuilder.empty, List.append_nil]
  dsimp only
  cases text.reverse.dropWhile (· == ' ') with
  | nil => rfl
  | cons ch kept => simp [PatternBuilder.flush, textPattern?]

/-! ## Whole patterns -/

/-- The meaning of the lines is their joined text, without leading blanks and trailing spaces. -/
theorem unindented_eq (first : List Char) (lines : List FurtherLine) :
    unindented first lines = ((first ++ meanings (commonIndent lines)
      (withoutLastBlank lines)).dropWhile Fluent.isBlank).rdropWhile (· == ' ') := by
  rw [unindented, joinLines_cons, List.flatMap_map]
  rfl

/-- Before the first line that is not blank nothing is kept. -/
theorem unindented_nil (blanks : List Nat) (line : IndentedText) (more : List FurtherLine) :
    unindented [] (blanks.map .blank ++ .content line :: more) =
      (line.text ++ meanings line.indent (withoutLastBlank more)).rdropWhile (· == ' ') := by
  have hmeaning :
      meanings line.indent (blanks.map .blank ++ .content line :: withoutLastBlank more) =
      List.replicate (blanks.length + 1) '\n' ++
        (line.text ++ meanings line.indent (withoutLastBlank more)) := by
    rw [meanings_append, meanings_blanks, List.replicate_succ']
    simp [meanings, meaning]
  have hstop : Stops Fluent.isBlank
      (line.text ++ meanings line.indent (withoutLastBlank more)) := by
    obtain ⟨ch, hch, hspace, -⟩ := line.starts
    have hfeed : ch ≠ '\n' :=
      (isText_iff.1 (List.all_eq_true.1 line.isText ch (List.mem_of_head? hch))).2.2
    obtain ⟨text, hcons⟩ := List.head?_eq_some_iff.1 hch
    rw [hcons, List.cons_append, stops_cons]
    simp [Fluent.isBlank, hspace, hfeed]
  have hblank : ∀ ch ∈ List.replicate (blanks.length + 1) '\n', Fluent.isBlank ch = true := by
    intro ch hch
    rw [(List.mem_replicate.1 hch).2]
    rfl
  rw [unindented_eq, withoutLastBlank_append, commonIndent_append, List.nil_append, hmeaning,
    List.dropWhile_append_of_pos hblank, dropWhile_of_stops hstop]

/-- **Indented lines are read as what they mean.**  The first line, which does not start with a
space, and the lines below it are read as one text, up to the last line that is not blank; nothing
is read if no text is left. -/
theorem pattern_indented_lines (deep : Nested) {first : List Char} {lines : List FurtherLine}
    {rest : List Char} (hfirst : first.all isText = true) (hspace : first.head? ≠ some ' ')
    (hrest : EndsLines rest) {c : Cursor} (hc : c.rest = first ++ (sources lines ++ rest)) :
    ∃ stop, c.Passes (first ++ sources (withoutLastBlank lines)) stop ∧
      (stop.current = none ∨ stop.current = some '\n') ∧
      pattern deep c = .ok (textPattern? (unindented first lines), stop) := by
  have hstands : ∀ {stop : Cursor}, PatternEnds stop →
      stop.current = none ∨ stop.current = some '\n' := fun h => h.imp_right And.left
  cases first with
  | nil =>
    rcases blank_or_content lines with ⟨blanks, rfl⟩ | ⟨blanks, line, more, rfl⟩
    · have hends := patternEnds_of_blanks blanks hrest hc
      rw [unindented_eq, withoutLastBlank_blanks]
      exact ⟨c, .refl c, hstands hends, patternFrom_of_ends deep .empty none hends⟩
    · -- nothing stands on the first line, so the blank lines above the first content are dropped
      obtain ⟨next, hp, hnext, heq⟩ := patternFrom_content deep .empty none blanks line hrest hc
      have hne : (PatternBuilder.empty.pushText line.text).isEmpty = false := by
        obtain ⟨ch, hch, -⟩ := line.starts
        obtain ⟨text, hcons⟩ := List.head?_eq_some_iff.1 hch
        simp [PatternBuilder.isEmpty, PatternBuilder.pushText, hcons]
      obtain ⟨stop, hstop, hends, hread⟩ :=
        patternFrom_sources deep hrest hne (some line.indent) hnext
      rw [unindented_nil, withoutLastBlank_append, ← List.singleton_append, ← List.append_assoc,
        sources_append]
      refine ⟨stop, hp.append hstop, hstands hends, ?_⟩
      rw [pattern, heq, ← finish_text]
      exact hread.trans (by simp [PatternBuilder.pushText])
  | cons ch first =>
    obtain ⟨next, hnext, hp⟩ : ∃ next : Cursor, next.rest = sources lines ++ rest ∧
        c.Passes (ch :: first) next := ⟨⟨sources lines ++ rest, _⟩, rfl, Cursor.passes_of_rest hc⟩
    have hne : (PatternBuilder.empty.pushText (ch :: first)).isEmpty = false := by
      simp [PatternBuilder.isEmpty, PatternBuilder.pushText]
    obtain ⟨stop, hstop, hends, hread⟩ :=
      patternFrom_sources deep hrest hne none hnext
    -- the first line starts with text, so no leading blanks are cut off
    have hstart : Stops Fluent.isBlank ((ch :: first) ++ meanings (commonIndent lines)
        (withoutLastBlank lines)) := by
      have hfeed : ch ≠ '\n' := (isText_iff.1 (List.all_eq_true.1 hfirst ch List.mem_cons_self)).2.2
      have hspace : ch ≠ ' ' := fun h => hspace (congrArg some h)
      rw [List.cons_append, stops_cons]
      simp [Fluent.isBlank, hspace, hfeed]
    refine ⟨stop, hp.append hstop, hstands hends, ?_⟩
    rw [pattern, patternFrom_text deep _ none hfirst hrest hp hnext, hread, unindented_eq,
      dropWhile_of_stops hstart, ← finish_text]
    simp [PatternBuilder.pushText]

/-- A greeting over several lines: empty lines, a line that stands out and one that stands back. -/
theorem pattern_indented_lines_greeting :
    let first := "Hello ".toList
    let lines : List FurtherLine := [.blank 0,
      .content ⟨4, "to  ".toList, by decide, ⟨'t', by decide⟩, by decide⟩,
      .content ⟨6, "all".toList, by decide, ⟨'a', by decide⟩, by decide⟩, .blank 2,
      .content ⟨2, "of you  ".toList, by decide, ⟨'o', by decide⟩, by decide⟩, .blank 0]
    let rest := "\n  .hint = Wave".toList
    first.all isText = true ∧ first.head? ≠ some ' ' ∧ EndsLines rest ∧
      first ++ (sources lines ++ rest) =
        "Hello \n\n    to  \n      all\n  \n  of you  \n\n  .hint = Wave".toList ∧
      ∃ stop, pattern (nested 1 1) ⟨first ++ (sources lines ++ rest), 0⟩ =
        .ok (some [.text "Hello \n\nto  \n  all\n\nof you"], stop) := by
  intro first lines rest
  have hfirst : first.all isText = true := by decide
  have hspace : first.head? ≠ some ' ' := by decide
  have hrest : EndsLines rest := .inr ⟨2, '.', "hint = Wave".toList, by decide⟩
  have hc : (⟨first ++ (sources lines ++ rest), 0⟩ : Cursor).rest =
      first ++ (sources lines ++ rest) := rfl
  obtain ⟨stop, -, -, hread⟩ := pattern_indented_lines (nested 1 1) hfirst hspace hrest hc
  exact ⟨hfirst, hspace, hrest, by decide, stop, hread⟩

end Fluent.Grammar
