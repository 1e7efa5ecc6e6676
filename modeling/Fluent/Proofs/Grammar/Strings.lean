/-
# Which texts are string literals

A string literal ends by itself: whether it is read, and as what, depends only on its own text.

* `escape_ok`, `quotedFrom_ok` : what is read, and that it is read wherever it stands;
* `stringLiteral_eq_ok_iff` : the same for a literal with its quotes, and `literal_eq_ok_iff` : for
  the value of a named argument.
-/
import Fluent.Proofs.Grammar.Tokens

namespace Fluent.Grammar

/-- The text holds no line end of any kind. -/
def OneLine (text : List Char) : Prop :=
  '\n' ∉ text ∧ '\r' ∉ text

theorem oneLine_nil : OneLine [] :=
  ⟨List.not_mem_nil, List.not_mem_nil⟩

/-- Two texts on one line make one line. -/
theorem OneLine.append {s t : List Char} (hs : OneLine s) (ht : OneLine t) : OneLine (s ++ t) :=
  ⟨fun h => (List.mem_append.1 h).elim hs.1 ht.1, fun h => (List.mem_append.1 h).elim hs.2 ht.2⟩

/-- A character that ends no line may stand before a text on one line. -/
theorem OneLine.cons {ch : Char} {t : List Char} (hn : ch ≠ '\n') (hr : ch ≠ '\r')
    (ht : OneLine t) : OneLine (ch :: t) := by
  constructor
  · intro h
    rcases List.mem_cons.1 h with h | h
    · exact hn h.symm
    · exact ht.1 h
  · intro h
    rcases List.mem_cons.1 h with h | h
    · exact hr h.symm
    · exact ht.2 h

/-- Characters that pass a test which line ends fail make one line. -/
theorem oneLine_of_all {test : Char → Bool} {text : List Char} (h : ∀ ch ∈ text, test ch = true)
    (hn : test '\n' = false) (hr : test '\r' = false) : OneLine text := by
  constructor
  · intro hmem
    exact absurd (h _ hmem) (by simp [hn])
  · intro hmem
    exact absurd (h _ hmem) (by simp [hr])

/-! ## Escapes -/

/-- A run of digits at the start of a text is read from wherever it stands. -/
theorem unicodeEscape_ok {c stop : Cursor} {count : Nat} {mark ch : Char}
    (hmark : c.current = some mark) (h : unicodeEscape c count = .ok (ch, stop)) :
    ∃ hex, c.Passes (mark :: hex) stop ∧ hex.length = count ∧ (∀ x ∈ hex, isHexDigit x = true) ∧
      charOfCodePoint? (hexValue hex) = some ch := by
  simp only [unicodeEscape] at h
  split at h
  · rename_i hcount
    split at h
    · rename_i found hch
      obtain ⟨rfl, rfl⟩ := Prod.mk.inj (Except.ok.inj h)
      have hprefix : (c.bump.leading isHexDigit).take count <+: c.bump.rest :=
        (List.take_prefix _ _).trans (List.takeWhile_prefix _)
      have hp := Cursor.passes_advance ((c.bump.leading isHexDigit).take count).length c.bump
      rw [← List.prefix_iff_eq_take.1 hprefix] at hp
      exact ⟨_, (Cursor.passes_bump hmark).append hp, hcount.2,
        fun x hx => Cursor.all_leading _ _ x (List.mem_of_mem_take hx), hch⟩
    · exact absurd h fail_ne_ok
  · exact absurd h fail_ne_ok

/-- Enough hexadecimal digits that name a character are read as that character. -/
theorem unicodeEscape_of_passes {c stop : Cursor} {count : Nat} {mark ch : Char} {hex : List Char}
    (hcount : 0 < count) (hp : c.Passes (mark :: hex) stop) (hlen : hex.length = count)
    (hall : ∀ x ∈ hex, isHexDigit x = true) (hch : charOfCodePoint? (hexValue hex) = some ch) :
    unicodeEscape c count = .ok (ch, stop) := by
  obtain ⟨mid, hmark, hhex⟩ := hp.uncons
  have htake : (c.bump.leading isHexDigit).take count = hex := by
    rw [Cursor.bump_eq hmark, Cursor.leading, hhex.1, List.takeWhile_append_of_pos hall, ← hlen]
    exact List.take_left
  have hstop : mid.advance hex.length = stop := Cursor.advance_eq hhex
  simp only [unicodeEscape, htake]
  rw [if_pos ⟨hcount, hlen⟩, hch, Cursor.bump_eq hmark, hstop]

/-- An escape is read from wherever its text stands. -/
theorem escape_ok {c stop : Cursor} {ch : Char} (h : escape c = .ok (ch, stop)) :
    ∃ text, c.Passes ('\\' :: text) stop ∧ OneLine text ∧
      ∀ {c' stop' : Cursor}, c'.Passes ('\\' :: text) stop' → escape c' = .ok (ch, stop') := by
  obtain ⟨mark, hm, h⟩ := bind_eq_ok.1 h
  have hslash := expectChar_eq_ok_iff.1 hm
  -- what follows the backslash decides how the escape goes on
  have hagain : ∀ {text : List Char} {c' stop' : Cursor}, c'.Passes ('\\' :: text) stop' →
      ∃ mark', expectChar c' '\\' = .ok mark' ∧ mark'.Passes text stop' := by
    intro text c' stop' hp
    obtain ⟨mark', hs, hp'⟩ := hp.uncons
    exact ⟨mark', expectChar_eq_ok_iff.2 hs, hp'⟩
  split at h
  case h_1 | h_2 | h_3 =>
    rename_i hcur
    obtain ⟨rfl, rfl⟩ := Prod.mk.inj (Except.ok.inj h)
    refine ⟨_, hslash.append (Cursor.passes_bump hcur), .cons (by decide) (by decide) oneLine_nil,
      fun {c' stop'} hp => ?_⟩
    obtain ⟨mark', hs, hp'⟩ := hagain hp
    refine bind_eq_ok.2 ⟨mark', hs, ?_⟩
    rw [hp'.current_cons, Cursor.bump_eq hp']
    rfl
  case h_4 | h_5 =>
    rename_i hcur
    obtain ⟨hex, hp, hlen, hall, hch⟩ := unicodeEscape_ok hcur h
    refine ⟨_, hslash.append hp, .cons (by decide) (by decide)
      (oneLine_of_all hall (by decide) (by decide)), fun {c' stop'} hp' => ?_⟩
    obtain ⟨mark', hs, hp''⟩ := hagain hp'
    refine bind_eq_ok.2 ⟨mark', hs, ?_⟩
    rw [hp''.current_cons]
    exact unicodeEscape_of_passes (by decide) hp'' hlen hall hch
  case h_6 => cases h
  case h_7 => exact absurd h fail_ne_ok

/-! ## Between quotes -/

/-- One character or escape more is read, or the text ends. -/
theorem quotedFrom_eq (start : Cursor) (value : List Char) (c : Cursor) :
    quotedFrom start value c =
      if maxStringLength < c.pos - start.pos then
        start.fail (.tokenTooLong "string literal" maxStringLength)
      else
        match c.current with
        | none => .ok (value.reverse, c)
        | some ch =>
          if ch = '"' then .ok (value.reverse, c)
          else if ch = '\n' ∨ ch = '\r' then c.fail .lineEndInString
          else if ch = '\\' then do
            let (ch, next) ← escape c
            quotedFrom start (ch :: value) next
          else quotedFrom start (ch :: value) c.bump := by
  rw [quotedFrom]
  split
  · rfl
  · split
    case h_1 =>
      rename_i hc
      rw [hc]
    case h_2 | h_3 | h_4 =>
      rename_i hc
      rw [hc]
      rfl
    case h_5 =>
      rename_i hc
      rw [hc]
      show _ = (escape c >>= _)
      cases escape c with
      | error failure => rfl
      | ok found => rfl
    case h_6 =>
      rename_i ch hquote hfeed hreturn hslash hc
      rw [hc]
      dsimp only
      rw [if_neg (fun h => hquote h), if_neg (fun h => h.elim hfeed hreturn),
        if_neg (fun h => hslash h)]

/-- Text between quotes ends here: the quote follows, or nothing. -/
def QuoteEnds (c : Cursor) : Prop :=
  c.current = none ∨ c.current = some '"'

/-- Where the quoted text ends, it is what was collected so far. -/
theorem quotedFrom_of_ends {start c : Cursor} {value : List Char}
    (hlen : ¬ maxStringLength < c.pos - start.pos) (hend : QuoteEnds c) :
    quotedFrom start value c = .ok (value.reverse, c) := by
  rw [quotedFrom_eq, if_neg hlen]
  rcases hend with hc | hc
  · rw [hc]
  · rw [hc]
    rfl

/-- Text between quotes is read from wherever it stands, if it ends there. -/
theorem quotedFrom_ok {start c stop : Cursor} {value found : List Char}
    (h : quotedFrom start value c = .ok (found, stop)) (hstart : start.pos ≤ c.pos) :
    ∃ text, c.Passes text stop ∧ OneLine text ∧
      ∀ {start' c' stop' : Cursor}, start'.pos ≤ c'.pos →
        c'.pos - start'.pos = c.pos - start.pos → c'.Passes text stop' →
        QuoteEnds stop' → quotedFrom start' value c' = .ok (found, stop') := by
  fun_induction quotedFrom start value c with
  | case1 | case4 | case5 => exact absurd h fail_ne_ok
  | case2 value c hlen hc | case3 value c hlen hc =>
    obtain ⟨rfl, rfl⟩ := Prod.mk.inj (Except.ok.inj h)
    refine ⟨[], .refl c, oneLine_nil, fun {start' c' stop'} _ hpos hp hend => ?_⟩
    obtain rfl := hp.eq_of_nil
    exact quotedFrom_of_ends (hpos ▸ hlen) hend
  | case6 value c hlen hc ch next he ih =>
    -- the limit on the length counts from where the text started, so only distances matter
    obtain ⟨esc, hp, hesc, hagain⟩ := escape_ok he
    obtain ⟨text, hpt, htext, hrest⟩ := ih h (by rw [hp.2]; omega)
    refine ⟨_, hp.append hpt, .append (.cons (by decide) (by decide) hesc) htext,
      fun {start' c' stop'} hle hpos hp' hend => ?_⟩
    obtain ⟨mid, hpe, hpr⟩ := hp'.split
    rw [quotedFrom_eq, hpos, if_neg hlen, hpe.current_cons]
    refine bind_eq_ok.2 ⟨_, hagain hpe, hrest ?_ ?_ hpr hend⟩
    · rw [hpe.2]
      omega
    · rw [hpe.2, hp.2]
      omega
  | case7 => cases h
  | case8 value c hlen ch hquote hfeed hreturn hslash hc ih =>
    have hp := Cursor.passes_bump hc
    obtain ⟨text, hpt, htext, hrest⟩ := ih h (by rw [hp.2]; omega)
    refine ⟨_, hp.append hpt, .cons hfeed hreturn htext,
      fun {start' c' stop'} hle hpos hp' hend => ?_⟩
    obtain ⟨mid, hpc, hpr⟩ := hp'.uncons
    rw [quotedFrom_eq, hpos, if_neg hlen, hpc.current_cons, Cursor.bump_eq hpc]
    dsimp only
    rw [if_neg (fun h => hquote h), if_neg (fun h => h.elim hfeed hreturn),
      if_neg (fun h => hslash h)]
    refine hrest ?_ ?_ hpr hend
    · rw [hpc.2]
      omega
    · rw [hpc.2, hp.2]
      omega

/-! ## Literals -/

/-- A string literal that can be read: wherever its text stands it is read, and as itself. -/
structure IsString (s : StringLiteral) : Prop where
  oneLine : OneLine s.print
  reads : ∀ {c stop : Cursor}, c.Passes s.print stop → stringLiteral c = .ok (s, stop)
  ofRaw : StringLiteral.ofRaw s.raw = .ok s

/-- A string literal is read exactly where it stands as it is printed. -/
theorem stringLiteral_eq_ok_iff {c stop : Cursor} {s : StringLiteral} :
    stringLiteral c = .ok (s, stop) ↔ IsString s ∧ c.Passes s.print stop := by
  constructor
  · intro h
    obtain ⟨start, hs, h⟩ := bind_eq_ok.1 h
    obtain ⟨⟨value, last⟩, hq, h⟩ := bind_eq_ok.1 h
    have hopen := expectChar_eq_ok_iff.1 hs
    obtain ⟨text, hp, hline, hagain⟩ := quotedFrom_ok hq (Nat.le_refl _)
    dsimp only at h
    split at h
    · rename_i hclose
      obtain ⟨rfl, rfl⟩ := Prod.mk.inj (Except.ok.inj h)
      have hprint : StringLiteral.print ⟨String.ofList value, String.ofList (start.textTo last)⟩ =
          ['"'] ++ (text ++ ['"']) := by
        rw [StringLiteral.print, Cursor.textTo_eq hp.1, String.toList_ofList]
        rfl
      rw [hprint]
      -- the text between the quotes is read again because it was read before
      refine ⟨⟨?_, fun {c' stop'} hp' => ?_, ?_⟩,
        hopen.append (hp.append (Cursor.passes_bump hclose))⟩
      · rw [hprint]
        exact .cons (by decide) (by decide)
          (hline.append (.cons (by decide) (by decide) oneLine_nil))
      · rw [hprint] at hp'
        obtain ⟨start', hs', hp'⟩ := hp'.split
        obtain ⟨last', hpt, hpq⟩ := hp'.split
        refine bind_eq_ok.2 ⟨start', expectChar_eq_ok_iff.2 hs', ?_⟩
        have hq' : quoted start' = .ok (value, last') :=
          hagain (Nat.le_refl _) (by simp) hpt (.inr hpq.current_cons)
        refine bind_eq_ok.2 ⟨(value, last'), hq', ?_⟩
        dsimp only
        rw [if_pos hpq.current_cons, Cursor.textTo_eq hpt.1, Cursor.textTo_eq hp.1,
          Cursor.bump_eq hpq]
        rfl
      -- without the quotes it is read up to its end
      · have hq' : quoted (.ofText text) = .ok (value, ⟨[], utf8Length text⟩) :=
          hagain (Nat.le_refl _) (by simp) (Cursor.passes_ofText text) (.inl rfl)
        rw [Cursor.textTo_eq hp.1, StringLiteral.ofRaw, unescape, String.toList_ofList, hq']
        rfl
    · exact absurd h fail_ne_ok
  · rintro ⟨hs, hp⟩
    exact hs.reads hp

/-- A literal that can be read. -/
def IsLiteral : Literal → Prop
  | .string s => IsString s
  | .number n => IsNumber n

/-- The text does not prolong a literal. -/
def LiteralEnds : Literal → List Char → Prop
  | .string _, _ => True
  | .number n, rest => NumberEnds n.raw.toList rest

theorem literal_eq_ok_iff {c stop : Cursor} {l : Literal} :
    literal c = .ok (l, stop) ↔ IsLiteral l ∧ c.Passes l.print stop ∧ LiteralEnds l stop.rest := by
  unfold literal
  constructor
  · intro h
    split at h
    · obtain ⟨⟨n, last⟩, hn, h⟩ := bind_eq_ok.1 h
      obtain ⟨rfl, rfl⟩ := Prod.mk.inj (Except.ok.inj h)
      exact number_eq_ok_iff.1 hn
    · split at h
      · obtain ⟨⟨s, last⟩, hs, h⟩ := bind_eq_ok.1 h
        obtain ⟨rfl, rfl⟩ := Prod.mk.inj (Except.ok.inj h)
        obtain ⟨hs, hp⟩ := stringLiteral_eq_ok_iff.1 hs
        exact ⟨hs, hp, trivial⟩
      · exact absurd h fail_ne_ok
  · intro h
    cases l with
    | number n =>
      obtain ⟨hn, hp, hend⟩ := h
      rw [if_pos (startsNumber_of_numeral hn.numeral hp)]
      exact bind_eq_ok.2 ⟨_, number_eq_ok_iff.2 ⟨hn, hp, hend⟩, rfl⟩
    | string s =>
      obtain ⟨hs, hp, -⟩ := h
      have hquote : c.current = some '"' := hp.current_cons
      rw [startsNumber_eq_false hquote (by decide) (by decide), if_neg (by decide), if_pos hquote]
      exact bind_eq_ok.2 ⟨_, stringLiteral_eq_ok_iff.2 ⟨hs, hp⟩, rfl⟩

end Fluent.Grammar
