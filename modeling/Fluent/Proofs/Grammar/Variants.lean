/-
# Printed variants are read again

The variants of a selection, each on lines of its own.

* `patternEnds_of_skipBlank` : where a bracket, a star, a point or a brace comes next, a pattern
  ends;
* `variant_ok`, `variantsFrom_ok` : what was read as variants;
* `variantsFrom_lines` : printed variants are read one after the other.
-/
import Fluent.Proofs.Grammar.Inline

namespace Fluent.Grammar

/-! ## The end of a pattern -/

/-- Where the next thing that is not blank ends a pattern, no line continues it. -/
theorem continuationFrom?_eq_none {blankLines : Nat} {line : Cursor}
    (h : ∀ ch, line.skipBlank.current = some ch → endsPattern ch = true) :
    continuationFrom? blankLines line = none := by
  -- the first character that is not blank stays the same while empty lines are passed
  fun_induction continuationFrom? blankLines line with
  | case1 | case3 => rfl
  | case2 blankLines line hc ih =>
    refine ih fun ch hch => h ch ?_
    have hspaces := Cursor.passes_skipWhile (· == ' ') line
    have hblank : Blank (line.leading (· == ' ') ++ ['\n']) :=
      Blank.append (Spaces.blank (Cursor.all_leading _ line)) (by simp [Blank, isBlank])
    rw [skipBlank_of_passes (hspaces.append (Cursor.passes_bump hc)) hblank]
    exact hch
  | case4 blankLines line ch hfeed hc indent hind =>
    have hspace : ch ≠ ' ' := by
      rintro rfl
      exact absurd (stops_dropWhile (· == ' ') line.rest ' ' hc) (by decide)
    have hskip : line.skipBlank = line.skipBlankInline :=
      skipBlank_eq_of_passes (Cursor.passes_skipWhile _ line)
        (Spaces.blank (Cursor.all_leading _ line)) hc hspace hfeed
    have hends := h ch (hskip ▸ hc)
    rw [hends, Bool.or_true] at hind
    exact absurd rfl hind

/-- A pattern ends at a line feed when what follows the blanks behind it ends patterns. -/
theorem patternEnds_of_skipBlank {c : Cursor} (hc : c.current = some '\n')
    (h : ∀ ch, c.skipBlank.current = some ch → endsPattern ch = true) : PatternEnds c := by
  refine .inr ⟨hc, continuationFrom?_eq_none fun ch hch => h ch ?_⟩
  rw [skipBlank_of_passes (Cursor.passes_bump hc) (by simp [Blank, isBlank])]
  exact hch

/-! ## What was read -/

/-- What can be read as a variant. -/
structure VariantReadable (deep : Nested) (v : Variant) : Prop where
  key : IsKey v.key
  value : ∃ fixed, ReadablePattern (Reads (deep.placeable [])) fixed v.value

/-- No space is left behind skipped spaces. -/
theorem skipBlankInline_current_ne (c : Cursor) : c.skipBlankInline.current ≠ some ' ' := by
  intro h
  exact absurd (stops_dropWhile (· == ' ') c.rest ' ' h) (by decide)

/-- What was read as a variant. -/
theorem variant_ok {deep : Nested} {isDefault : Bool} {c stop : Cursor} {v : Variant}
    (h : variant deep isDefault c = .ok (v, stop)) (hclean : '\r' ∉ c.rest) :
    VariantReadable deep v := by
  obtain ⟨⟨key, start⟩, hk, h⟩ := bind_eq_ok.1 h
  obtain ⟨⟨value, last⟩, hv, h⟩ := bind_eq_ok.1 h
  have hle : c ≤ start.skipBlankInline :=
    Cursor.le_trans (Cursor.le_of_lt (variantKey_lt hk)) (Cursor.le_skipBlankInline start)
  obtain ⟨bracket, hb, hk⟩ := bind_eq_ok.1 hk
  obtain ⟨⟨text, behind⟩, hkey, hk⟩ := bind_eq_ok.1 hk
  obtain ⟨close, -, hk⟩ := bind_eq_ok.1 hk
  obtain ⟨rfl, -⟩ := Prod.mk.inj (Except.ok.inj hk)
  have hread := pattern_ok hv (Cursor.not_mem_of_le hle hclean) (skipBlankInline_current_ne start)
  dsimp only at h
  split at h
  · rename_i p
    obtain ⟨rfl, -⟩ := Prod.mk.inj (Except.ok.inj h)
    refine ⟨(keyText_eq_ok_iff.1 hkey).1, ?_⟩
    rcases hread.2 with ⟨hnone, -⟩ | ⟨p', fixed, hp, hreadable⟩
    · cases hnone
    · obtain rfl := Option.some.inj hp
      exact ⟨fixed, hreadable⟩
  · exact absurd h fail_ne_ok

/-- What was read as variants. -/
theorem variantsFrom_ok {deep : Nested} {before list : List Variant} {c stop : Cursor}
    (h : variantsFrom deep before c = .ok (list, stop)) (hclean : '\r' ∉ c.rest)
    (hbefore : ∀ v ∈ before, VariantReadable deep v) : ∀ v ∈ list, VariantReadable deep v := by
  fun_induction variantsFrom deep before c with
  | case1 => cases h
  | case2 before c line isDefault _ v last hv ih =>
    have hle : c ≤ skipStar line := Cursor.le_trans (Cursor.le_skipBlank c) (le_skipStar line)
    have hstop : c ≤ last := Cursor.le_trans hle (Cursor.le_of_lt (variant_lt hv))
    refine ih h (Cursor.not_mem_of_le hstop hclean) fun x hx => ?_
    rcases List.mem_cons.1 hx with rfl | hx
    · exact variant_ok hv (Cursor.not_mem_of_le hle hclean)
    · exact hbefore x hx
  | case3 | case4 => exact absurd h fail_ne_ok
  | case5 =>
    obtain ⟨rfl, -⟩ := Prod.mk.inj (Except.ok.inj h)
    exact fun v hv => hbefore v (List.mem_reverse.1 hv)

/-! ## Reading printed variants -/

/-- The spaces before a printed variant. -/
def variantIndent (isDefault : Bool) : List Char :=
  if isDefault then List.replicate 3 ' ' else List.replicate 4 ' '

/-- What a printed variant starts with: its bracket, behind a star for the default variant. -/
def variantStart (isDefault : Bool) : List Char :=
  if isDefault then ['*', '['] else ['[']

/-- What stands before the key of a printed variant. -/
def variantMark (isDefault : Bool) : List Char :=
  variantIndent isDefault ++ variantStart isDefault

/-- A printed variant without the line end behind it. -/
def variantLine (v : Variant) : List Char :=
  variantMark v.isDefault ++ (v.key.text.toList ++ ']' :: indentContinuations (printValue v.value))

/-- A printed variant is its line, or lines, with a line feed behind. -/
theorem variant_print_eq (v : Variant) : v.print = variantLine v ++ ['\n'] := by
  obtain ⟨key, value, isDefault⟩ := v
  rw [Variant.print, variantLine, variantMark, variantIndent, variantStart]
  cases isDefault <;> simp [printValue, printPattern]

theorem IsKey.oneLine {key : VariantKey} (h : IsKey key) : OneLine key.text.toList := by
  cases key with
  | identifier id => exact IsName.oneLine h
  | number n => exact (IsNumber.numeral h).oneLine

/-- A key starts with something other than a blank. -/
theorem IsKey.cons {key : VariantKey} (h : IsKey key) :
    ∃ ch rest, key.text.toList = ch :: rest ∧ ch ≠ ' ' ∧ ch ≠ '\n' := by
  cases key with
  | identifier id =>
    obtain ⟨ch, rest, hcons, hch⟩ := IsName.cons h
    refine ⟨ch, rest, hcons, ?_, ?_⟩ <;> rintro rfl <;> exact absurd hch (by decide)
  | number n =>
    obtain ⟨ch, rest, hcons, hch⟩ := (IsNumber.numeral h).cons
    refine ⟨ch, rest, hcons, ?_, ?_⟩ <;> rintro rfl <;> exact absurd hch (by decide)

/-- A key is read up to its bracket. -/
theorem variantKey_of_passes {key : VariantKey} (h : IsKey key) {c stop : Cursor}
    (hp : c.Passes ('[' :: (key.text.toList ++ [']'])) stop) :
    variantKey c = .ok (key, stop) := by
  obtain ⟨start, hopen, hp⟩ := hp.uncons
  obtain ⟨behind, hkey, hclose⟩ := hp.split
  obtain ⟨ch, rest, hcons, hs, hf⟩ := h.cons
  have hstart : start.skipBlank = start := by
    have hfirst : start.current = some ch := by
      rw [hkey.current_eq, hcons]
      rfl
    exact skipBlank_eq_self hfirst hs hf
  have hc : behind.current = some ']' := hclose.current_cons
  have hends : KeyEnds key behind.rest := by
    cases key with
    | identifier id => exact Cursor.stops_of_current hc (by decide)
    | number n =>
      refine ⟨Cursor.stops_of_current hc (by decide), fun _ hpoint => ?_⟩
      exact absurd (Option.some.inj (hc.symm.trans hpoint)) (by decide)
  rw [variantKey, expectChar_eq_ok_iff.2 hopen]
  show (keyText start.skipBlank >>= _) = _
  rw [hstart, keyText_eq_ok_iff.2 ⟨h, hkey, hends⟩]
  show (expectChar behind.skipBlank ']' >>= _) = _
  rw [skipBlank_eq_self hc (by decide) (by decide), expectChar_eq_ok_iff.2 hclose]
  rfl

/-- How the line of a variant is indented. -/
theorem indentBy_variantLine (n : Nat) {v : Variant} (hkey : IsKey v.key) :
    indentBy n true (variantLine v) =
      (List.replicate n ' ' ++ variantIndent v.isDefault) ++ (variantStart v.isDefault ++
        (v.key.text.toList ++ ']' :: indentBy (n + 4) false (printValue v.value))) := by
  have hmark : OneLine (variantMark v.isDefault) := by
    cases v.isDefault <;> exact ⟨by decide, by decide⟩
  have hline : OneLine (variantMark v.isDefault ++ (v.key.text.toList ++ [']'])) :=
    hmark.append (hkey.oneLine.append (oneLine_nil.cons (by decide) (by decide)))
  have hcut : variantLine v = (variantMark v.isDefault ++ (v.key.text.toList ++ [']'])) ++
      indentContinuations (printValue v.value) := by
    simp [variantLine]
  have hfirst : ∃ text, variantLine v = ' ' :: text := by
    rw [variantLine]
    cases v.isDefault <;> exact ⟨_, rfl⟩
  obtain ⟨text, htext⟩ := hfirst
  have hlead : indentBy n true (variantLine v) =
      List.replicate n ' ' ++ indentBy n false (variantLine v) := by
    rw [htext, indentBy_true_cons n (by decide)]
  rw [hlead, hcut, indentBy_append, indentBy_of_not_mem n hline.1, endsLine_of_not_mem hline.1,
    indentContinuations, indentFrom_eq_indentBy, indentBy_indentBy, variantMark]
  simp

namespace VariantReadable

variable {deep : Nested} {v : Variant}

/-- A printed variant holds no carriage return. -/
theorem noReturn (h : VariantReadable deep v) (hdeep : Canonical deep) : '\r' ∉ variantLine v := by
  obtain ⟨fixed, hvalue⟩ := h.value
  have hprint := hvalue.noReturn fun e he => (hdeep.placeable e he).noReturn
  have hmark : '\r' ∉ variantMark v.isDefault := by
    cases v.isDefault <;> decide
  have hlines : '\r' ∉ indentContinuations (printValue v.value) := by
    intro hmem
    rw [indentContinuations, indentFrom_eq_indentBy] at hmem
    rcases mem_indentBy hmem with hmem | hmem
    · exact hprint hmem
    · exact absurd hmem (by decide)
  intro hmem
  rcases List.mem_append.1 hmem with hmem | hmem
  · exact hmark hmem
  · rcases List.mem_append.1 hmem with hmem | hmem
    · exact h.key.oneLine.2 hmem
    · rcases List.mem_cons.1 hmem with hmem | hmem
      · exact absurd hmem (by decide)
      · exact hlines hmem

/-- A printed variant is read from its bracket on. -/
theorem reads_bracket (h : VariantReadable deep v) (hdeep : Canonical deep) {n : Nat}
    {c stop : Cursor}
    (hp : c.Passes
      ('[' :: (v.key.text.toList ++ ']' :: indentBy n false (printValue v.value))) stop)
    (hend : PatternEnds stop) : variant deep v.isDefault c = .ok (v, stop) := by
  have htext : '[' :: (v.key.text.toList ++ ']' :: indentBy n false (printValue v.value)) =
      '[' :: (v.key.text.toList ++ [']']) ++ indentBy n false (printValue v.value) := by
    simp
  rw [htext] at hp
  obtain ⟨start, hkey, hvalue⟩ := hp.split
  obtain ⟨fixed, hread⟩ := h.value
  rw [variant, variantKey_of_passes h.key hkey]
  show (pattern deep start.skipBlankInline >>= _) = _
  rw [hread.reads (fun e he => hdeep.placeable e he) n hvalue hend]
  cases v
  rfl

/-- Behind the blank, the line of a variant goes on with its bracket, or with a star and its
bracket. -/
theorem skipBlank_passes (h : VariantReadable deep v) {n : Nat} {c stop : Cursor}
    (hp : c.Passes ('\n' :: indentBy n true (variantLine v)) stop) :
    c.skipBlank.Passes (variantStart v.isDefault ++
      (v.key.text.toList ++ ']' :: indentBy (n + 4) false (printValue v.value))) stop := by
  have hspaces : Spaces (List.replicate n ' ' ++ variantIndent v.isDefault) := by
    refine (spaces_replicate n).append ?_
    unfold variantIndent
    split <;> exact spaces_replicate _
  rw [indentBy_variantLine n h.key, ← List.cons_append] at hp
  obtain ⟨line, hgap, hp⟩ := hp.split
  have hblank : Blank ('\n' :: (List.replicate n ' ' ++ variantIndent v.isDefault)) :=
    fun ch hch => (List.mem_cons.1 hch).elim (fun hfeed => hfeed ▸ rfl) (hspaces.blank ch)
  have hskip : c.skipBlank = line := by
    have hstart : ∃ ch text, variantStart v.isDefault = ch :: text ∧ ch ≠ ' ' ∧ ch ≠ '\n' := by
      unfold variantStart
      split <;> exact ⟨_, _, rfl, by decide, by decide⟩
    obtain ⟨ch, text, htext, hs, hf⟩ := hstart
    have hc : line.current = some ch := by
      rw [htext] at hp
      exact hp.current_cons
    exact skipBlank_eq_of_passes hgap hblank hc hs hf
  rw [hskip]
  exact hp

/-- Behind blanks a printed variant starts with a star if it is the default, and with a bracket if
not. -/
theorem skipBlank_current (h : VariantReadable deep v) {n : Nat} {c stop : Cursor}
    (hp : c.Passes ('\n' :: indentBy n true (variantLine v)) stop) :
    c.skipBlank.current = some (if v.isDefault then '*' else '[') := by
  have hline := h.skipBlank_passes hp
  cases hdefault : v.isDefault with
  | true =>
    rw [hdefault] at hline
    exact hline.current_cons
  | false =>
    rw [hdefault] at hline
    exact hline.current_cons

/-- A printed variant is read on its line, behind the star if there is one. -/
theorem reads (h : VariantReadable deep v) (hdeep : Canonical deep) {n : Nat} {c stop : Cursor}
    (hp : c.Passes ('\n' :: indentBy n true (variantLine v)) stop) (hend : PatternEnds stop) :
    (skipStar c.skipBlank).current = some '[' ∧
      variant deep v.isDefault (skipStar c.skipBlank) = .ok (v, stop) := by
  have hline := h.skipBlank_passes hp
  have hc := h.skipBlank_current hp
  cases hdefault : v.isDefault with
  | true =>
    rw [hdefault] at hline hc
    obtain ⟨start, hstar, hbracket⟩ := hline.uncons
    have hstart : skipStar c.skipBlank = start := by
      rw [skipStar, hstar.current_cons, if_pos rfl, Cursor.bump_eq hstar]
    rw [hstart, ← hdefault]
    exact ⟨hbracket.current_cons, h.reads_bracket hdeep hbracket hend⟩
  | false =>
    rw [hdefault] at hline hc
    have hstart : skipStar c.skipBlank = c.skipBlank := by
      rw [skipStar, hc, if_neg (by decide)]
    rw [hstart, ← hdefault]
    exact ⟨hc, h.reads_bracket hdeep hline hend⟩

end VariantReadable

/-- Printed variants, each behind a line end. -/
def variantLines : List Variant → List Char
  | [] => []
  | v :: vs => '\n' :: (variantLine v ++ variantLines vs)

/-- Printed variants are their lines with a line feed behind. -/
theorem printVariants_eq (list : List Variant) :
    '\n' :: printVariants list = variantLines list ++ ['\n'] := by
  induction list with
  | nil =>
    rw [printVariants]
    rfl
  | cons v vs ih =>
    rw [printVariants, variant_print_eq, variantLines, List.append_assoc, List.singleton_append, ih,
      List.cons_append, List.append_assoc]

/-- Indentation starts anew with each variant. -/
theorem indentBy_variantLines (n : Nat) (atLineStart : Bool) (list : List Variant) :
    indentBy n atLineStart (variantLines list) = indentBy n false (variantLines list) := by
  cases list with
  | nil => rfl
  | cons v vs => rw [variantLines, indentBy_feed, indentBy_feed]

/-- Indented variants stand one behind the other, each on lines of its own. -/
theorem indentBy_variantLines_cons (n : Nat) (v : Variant) (vs : List Variant) :
    indentBy n false (variantLines (v :: vs)) =
      '\n' :: indentBy n true (variantLine v) ++ indentBy n false (variantLines vs) := by
  rw [variantLines, indentBy_feed, indentBy_append, indentBy_variantLines]
  rfl

/-- Printed variants are read one after the other, up to the line of the closing brace. -/
theorem variantsFrom_lines {deep : Nested} (hdeep : Canonical deep) {n : Nat}
    {list : List Variant} (hlist : ∀ v ∈ list, VariantReadable deep v) {before : List Variant}
    (hne : before ++ list ≠ []) {c stop : Cursor}
    (hp : c.Passes (indentBy n false (variantLines list)) stop) (hfeed : stop.current = some '\n')
    (hclose : stop.skipBlank.current = some '}') :
    variantsFrom deep before c = .ok (before.reverse ++ list, stop) := by
  induction list generalizing before c with
  | nil =>
    obtain rfl := hp.eq_of_nil
    have hbefore : before.isEmpty = false := by simpa using hne
    have hstar : skipStar stop.skipBlank = stop.skipBlank := by
      rw [skipStar, hclose, if_neg (by decide)]
    rw [variantsFrom_eq, hstar, hclose, if_neg (by simp), if_neg (by simp), hbefore,
      if_neg (by decide), List.append_nil]
  | cons v vs ih =>
    have hv := hlist v List.mem_cons_self
    have hvs : ∀ x ∈ vs, VariantReadable deep x := fun x hx => hlist x (List.mem_cons_of_mem _ hx)
    rw [indentBy_variantLines_cons] at hp
    obtain ⟨last, hline, hrest⟩ := hp.split
    -- a value ends in front of the next variant, and the last one in front of the brace
    have hend : PatternEnds last := by
      cases vs with
      | nil =>
        obtain rfl := hrest.eq_of_nil
        refine patternEnds_of_skipBlank hfeed fun ch hch => ?_
        obtain rfl := Option.some.inj (hclose.symm.trans hch)
        rfl
      | cons w ws =>
        rw [indentBy_variantLines_cons] at hrest
        obtain ⟨next, hnext, -⟩ := hrest.split
        have hcurrent := (hvs w List.mem_cons_self).skipBlank_current hnext
        refine patternEnds_of_skipBlank hnext.current_cons fun ch hch => ?_
        rw [hcurrent] at hch
        obtain rfl := Option.some.inj hch
        cases w.isDefault <;> rfl
    obtain ⟨hbracket, hread⟩ := hv.reads hdeep hline hend
    have hdefault : (c.skipBlank.current == some '*') = v.isDefault := by
      rw [hv.skipBlank_current hline]
      cases v.isDefault <;> rfl
    rw [variantsFrom_eq, if_pos ⟨hline.current_cons, hbracket⟩, hdefault, hread]
    show variantsFrom deep (v :: before) last = _
    rw [ih hvs (by simp) hrest]
    simp

/-- Behind an arrow the variants start with the next line. -/
theorem variants_of_passes {deep : Nested} (hdeep : Canonical deep) {n : Nat} {list : List Variant}
    (hlist : ∀ v ∈ list, VariantReadable deep v) (hne : list ≠ []) {c stop : Cursor}
    (hp : c.Passes (indentBy n false (variantLines list)) stop) (hfeed : stop.current = some '\n')
    (hclose : stop.skipBlank.current = some '}') :
    c.skipBlankInline = c ∧ variants deep c = .ok (list, stop) := by
  have hfirst : c.current = some '\n' := by
    obtain ⟨v, vs, rfl⟩ := List.exists_cons_of_ne_nil hne
    rw [indentBy_variantLines_cons] at hp
    exact hp.current_cons
  constructor
  · exact Cursor.skipWhile_of_stops (Cursor.stops_of_current hfirst (by decide))
  · have hsome : [] ++ list ≠ [] := hne
    rw [variants, if_pos hfirst]
    exact variantsFrom_lines hdeep hlist hsome hp hfeed hclose

end Fluent.Grammar
