/-
# The lines of a text

A text whose lines are empty or hold more than spaces is taken apart character by character and
break by break: a break is a line end, the empty lines behind it, and the spaces that the next line
starts with.

* `TextLines` : the texts that are made in this way, and `textLines_of_lines` : which they are;
* `LinesKept` : the spaces at the starts of the lines are neither lost nor in the way;
* `linesKept_char`, `linesKept_break` : it can be told piece by piece.
-/
import Fluent.Text.Lines
import Fluent.Tree.Print

namespace Fluent

/-! ## Splitting -/

/-- The first line goes on with a character that ends no line. -/
theorem splitLines_cons {ch : Char} {text line : List Char} {lines : List (List Char)}
    (hfeed : ch ≠ '\n') (h : splitLines text = line :: lines) :
    splitLines (ch :: text) = (ch :: line) :: lines := by
  rw [splitLines, h]
  exact if_neg hfeed

/-- A line feed puts an empty line in front. -/
theorem splitLines_feed (text : List Char) : splitLines ('\n' :: text) = [] :: splitLines text := by
  rw [splitLines]
  split
  · rename_i h
    exact absurd h (splitLines_ne_nil text)
  · rename_i h
    rw [if_pos rfl, h]

/-- A text has a first line. -/
theorem exists_splitLines (text : List Char) :
    ∃ line lines, splitLines text = line :: lines :=
  List.exists_cons_of_ne_nil (splitLines_ne_nil text)

/-- Line feeds in front of a text are empty lines in front of its own. -/
theorem splitLines_feeds (n : Nat) (text : List Char) :
    splitLines (List.replicate n '\n' ++ text) = List.replicate n [] ++ splitLines text := by
  induction n with
  | zero => rfl
  | succ n ih =>
    rw [List.replicate_succ, List.cons_append, splitLines_feed, ih]
    rfl

/-- Spaces in front of a text indent its first line. -/
theorem splitLines_spaces (n : Nat) {text line : List Char} {lines : List (List Char)}
    (h : splitLines text = line :: lines) :
    splitLines (List.replicate n ' ' ++ text) = (List.replicate n ' ' ++ line) :: lines := by
  induction n with
  | zero => exact h
  | succ n ih =>
    rw [List.replicate_succ, List.cons_append, splitLines_cons (by decide) ih]
    rfl

/-! ## Breaks -/

/-- A line end, empty lines behind it, and the spaces that the next line starts with. -/
def lineBreak (emptyLines spaces : Nat) : List Char :=
  List.replicate (emptyLines + 1) '\n' ++ List.replicate spaces ' '

/-- A text that ends with no line end and, below the first line, has no lines of spaces only. -/
inductive TextLines : List Char → Prop
  | nil : TextLines []
  | char {ch : Char} {text : List Char} (hfeed : ch ≠ '\n') (hrest : TextLines text) :
      TextLines (ch :: text)
  | break (emptyLines spaces : Nat) {ch : Char} {text : List Char} (hspace : ch ≠ ' ')
      (hfeed : ch ≠ '\n') (hrest : TextLines text) :
      TextLines (lineBreak emptyLines spaces ++ ch :: text)

/-- The lines behind a break are empty ones, and one that starts with the spaces. -/
theorem splitLines_break (emptyLines spaces : Nat) {text line : List Char}
    {lines : List (List Char)} (h : splitLines text = line :: lines) :
    (splitLines (lineBreak emptyLines spaces ++ text)).tail =
      List.replicate emptyLines [] ++ (List.replicate spaces ' ' ++ line) :: lines := by
  rw [lineBreak, List.append_assoc, splitLines_feeds, splitLines_spaces spaces h,
    List.replicate_succ]
  rfl

/-- What stands behind a line end, if the lines there are empty or hold more than spaces. -/
theorem exists_lineBreak {text : List Char} (hne : text ≠ []) (hlast : text.getLast? ≠ some '\n')
    (hlines : ∀ line ∈ splitLines text, line ≠ [] → ∃ ch ∈ line, ch ≠ ' ') :
    ∃ emptyLines spaces ch rest, '\n' :: text = lineBreak emptyLines spaces ++ ch :: rest ∧
      ch ≠ ' ' ∧ ch ≠ '\n' := by
  induction text with
  | nil => exact absurd rfl hne
  | cons x text ih =>
    by_cases hx : x = '\n'
    · subst hx
      have htail : text ≠ [] := by
        rintro rfl
        exact hlast rfl
      -- one more empty line in front of the break
      rw [splitLines_feed] at hlines
      obtain ⟨emptyLines, spaces, ch, rest, htext, hch⟩ := ih htail
        (by rwa [List.getLast?_cons_of_ne_nil htail] at hlast)
        fun line hline => hlines line (List.mem_cons_of_mem _ hline)
      exact ⟨emptyLines + 1, spaces, ch, rest, by rw [htext]; rfl, hch⟩
    · -- the first line holds more than the spaces that it starts with
      have hcut := List.takeWhile_append_dropWhile (p := (· == ' ')) (l := x :: text)
      have hspaces : (x :: text).takeWhile (· == ' ') =
          List.replicate ((x :: text).takeWhile (· == ' ')).length ' ' :=
        List.eq_replicate_iff.2 ⟨rfl, fun y hy => by
          simpa using List.all_eq_true.1 List.all_takeWhile y hy⟩
      obtain ⟨line, lines, hsplit⟩ := exists_splitLines ((x :: text).dropWhile (· == ' '))
      have hfirst := splitLines_spaces ((x :: text).takeWhile (· == ' ')).length hsplit
      rw [← hspaces, hcut] at hfirst
      have hline : line ≠ [] := by
        rintro rfl
        rw [List.append_nil] at hfirst
        obtain ⟨first, others, hothers⟩ := exists_splitLines text
        obtain ⟨hsame, -⟩ := List.cons.inj (hfirst.symm.trans (splitLines_cons hx hothers))
        obtain ⟨y, hy, hne⟩ := hlines _ (by rw [hfirst]; exact List.mem_cons_self)
          (by rw [hsame]; exact List.cons_ne_nil _ _)
        rw [hspaces] at hy
        exact hne (List.eq_of_mem_replicate hy)
      cases hrest : (x :: text).dropWhile (· == ' ') with
      | nil =>
        rw [hrest] at hsplit
        exact absurd (List.cons.inj hsplit).1.symm hline
      | cons ch rest =>
        refine ⟨0, ((x :: text).takeWhile (· == ' ')).length, ch, rest, ?_, ?_, ?_⟩
        · rw [lineBreak, ← hspaces, ← hrest, List.append_assoc, hcut]
          rfl
        · have hhead := List.head?_dropWhile_not (· == ' ') (x :: text)
          rw [hrest] at hhead
          simpa using hhead
        · rintro rfl
          rw [hrest, splitLines_feed] at hsplit
          exact hline (List.cons.inj hsplit).1.symm

/-- **Texts are taken apart by their lines**: it is enough that no line below the first one holds
spaces only, and that no line end stands at the end. -/
theorem textLines_of_lines {text : List Char} (hlast : text.getLast? ≠ some '\n')
    (hlines : ∀ line ∈ (splitLines text).tail, line ≠ [] → ∃ ch ∈ line, ch ≠ ' ') :
    TextLines text := by
  induction hn : text.length using Nat.strongRecOn generalizing text with
  | _ n ih =>
    cases text with
    | nil => exact .nil
    | cons x text =>
      by_cases hx : x = '\n'
      · subst hx
        have hne : text ≠ [] := by
          rintro rfl
          exact hlast rfl
        -- a line end: the break reaches up to the first character that is no blank
        rw [splitLines_feed, List.tail_cons] at hlines
        obtain ⟨emptyLines, spaces, ch, rest, htext, hspace, hfeed⟩ :=
          exists_lineBreak hne (by rwa [List.getLast?_cons_of_ne_nil hne] at hlast) hlines
        rw [htext]
        obtain ⟨line, lines, hsplit⟩ := exists_splitLines rest
        have htail := splitLines_break emptyLines spaces (splitLines_cons hfeed hsplit)
        rw [← htext, splitLines_feed, List.tail_cons] at htail
        refine .break emptyLines spaces hspace hfeed (ih rest.length ?_ (fun hrest => ?_) ?_ rfl)
        · rw [← hn, htext, List.length_append, List.length_cons]
          omega
        · obtain ⟨init, rfl⟩ := List.getLast?_eq_some_iff.1 hrest
          refine hlast ?_
          rw [htext, ← List.cons_append, ← List.append_assoc, List.getLast?_concat]
        · intro line' hline'
          rw [hsplit, List.tail_cons] at hline'
          refine hlines line' ?_
          rw [htail]
          exact List.mem_append_right _ (List.mem_cons_of_mem _ hline')
      · -- a character of the first line: the lines below it are the same
        obtain ⟨line, lines, hsplit⟩ := exists_splitLines text
        rw [splitLines_cons hx hsplit, List.tail_cons] at hlines
        refine .char hx (ih text.length ?_ ?_ ?_ rfl)
        · rw [← hn, List.length_cons]
          exact Nat.lt_succ_self _
        · intro hrest
          obtain ⟨init, rfl⟩ := List.getLast?_eq_some_iff.1 hrest
          refine hlast ?_
          rw [← List.cons_append, List.getLast?_concat]
        · rwa [hsplit, List.tail_cons]

/-! ## Lines that are kept -/

/-- The line starts with spaces, and behind them with a character that cannot be text at the start
of a line. -/
def hidesSpecial (line : List Char) : Bool :=
  line.head? == some ' ' && (line.dropWhile (· == ' ')).head?.any isSpecialAtLineStart

/-- Below the first line no line hides a special character; and where the first of these lines that
is not empty sets the indentation of all of them, it starts with no spaces of its own. -/
def LinesKept (fixed : Bool) (text : List Char) : Prop :=
  (∀ line ∈ (splitLines text).tail, hidesSpecial line = false) ∧
    (fixed = false → ((splitLines text).tail.find? (· ≠ [])).bind List.head? ≠ some ' ')

instance (fixed : Bool) (text : List Char) : Decidable (LinesKept fixed text) :=
  inferInstanceAs (Decidable (_ ∧ _))

section LinesKept

variable {fixed : Bool} {text : List Char}

/-- In the empty text there is no line that is not kept. -/
theorem linesKept_nil : LinesKept fixed [] :=
  ⟨nofun, fun _ => nofun⟩

/-- Characters of the first line do not matter. -/
theorem linesKept_char {ch : Char} (hfeed : ch ≠ '\n') :
    LinesKept fixed (ch :: text) ↔ LinesKept fixed text := by
  obtain ⟨line, lines, hsplit⟩ := exists_splitLines text
  rw [LinesKept, LinesKept, splitLines_cons hfeed hsplit, hsplit]
  rfl

/-- A line hides a special character exactly when spaces stand before it. -/
theorem hidesSpecial_spaces (spaces : Nat) {ch : Char} (hspace : ch ≠ ' ') (line : List Char) :
    hidesSpecial (List.replicate spaces ' ' ++ ch :: line) =
      (decide (0 < spaces) && isSpecialAtLineStart ch) := by
  have hdrop : (List.replicate spaces ' ' ++ ch :: line).dropWhile (· == ' ') = ch :: line := by
    rw [List.dropWhile_append_of_pos (by simp),
      List.dropWhile_cons_of_neg (by simpa using hspace)]
  rw [hidesSpecial, hdrop]
  cases spaces with
  | zero => simp [hspace]
  | succ spaces => simp [List.replicate_succ]

/-- A break is kept if its spaces are not lost and hide no special character, and the lines behind
it are kept. -/
theorem linesKept_break (emptyLines spaces : Nat) {ch : Char} (hspace : ch ≠ ' ')
    (hfeed : ch ≠ '\n') :
    LinesKept fixed (lineBreak emptyLines spaces ++ ch :: text) ↔
      (fixed = false → spaces = 0) ∧ (0 < spaces → isSpecialAtLineStart ch = false) ∧
        LinesKept true text := by
  obtain ⟨line, lines, hsplit⟩ := exists_splitLines text
  have hfirst := splitLines_cons hfeed hsplit
  have hempty : hidesSpecial [] = false := rfl
  -- the first line that is not empty decides, and the empty ones before it are passed
  have hfind : ((List.replicate emptyLines [] ++
      (List.replicate spaces ' ' ++ ch :: line) :: lines).find? (· ≠ [])).bind List.head? =
        (List.replicate spaces ' ' ++ ch :: line).head? := by
    rw [List.find?_append, List.find?_eq_none.2 (by simp), Option.none_or,
      List.find?_cons_of_pos (by simp)]
    rfl
  have hhead : (List.replicate spaces ' ' ++ ch :: line).head? ≠ some ' ' ↔ spaces = 0 := by
    cases spaces with
    | zero => simpa using hspace
    | succ spaces => simp [List.replicate_succ]
  have hhides : hidesSpecial (List.replicate spaces ' ' ++ ch :: line) = false ↔
      (0 < spaces → isSpecialAtLineStart ch = false) := by
    rw [hidesSpecial_spaces spaces hspace]
    simp
  rw [LinesKept, LinesKept, splitLines_break emptyLines spaces hfirst, hfind, hhead, hsplit,
    List.tail_cons, List.forall_mem_append, List.forall_mem_cons, hhides]
  constructor
  · rintro ⟨⟨-, hspecial, hlines⟩, hfixed⟩
    exact ⟨hfixed, hspecial, hlines, nofun⟩
  · rintro ⟨hfixed, hspecial, hlines, -⟩
    refine ⟨⟨fun line' hline' => ?_, hspecial, hlines⟩, hfixed⟩
    rw [List.eq_of_mem_replicate hline']
    exact hempty

end LinesKept

end Fluent
