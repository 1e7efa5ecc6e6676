/-
# Tokens of texts that agree line by line

A token stands on one line.  So if two texts can differ only behind line ends, a rule for tokens
that reads one of them reads the other as well.

* `Carries` : what is answered for one text is answered for another, up to a relation; steps in a
  row keep it (`Carries.bind`);
* `Linewise` : related texts go on in the same way up to the end of a line;
* `Linewise.carries_token` : rules for tokens carry over;
* `Linewise.expectChar`, `Linewise.startsNumber_eq`, `Linewise.atArrow_eq` : so does what decides
  how to go on.
-/
import Fluent.Proofs.Grammar.Variants

namespace Fluent.Grammar

/-! ## Answers for two texts -/

/-- What is answered first is answered again, up to a relation. -/
def Carries {α : Type} (R : α → α → Prop) (x y : Reading α) : Prop :=
  ∀ a, x = .ok a → ∃ b, y = .ok b ∧ R a b

namespace Carries

variable {α β : Type} {R : α → α → Prop} {S : β → β → Prop}

/-- Related values carry over. -/
theorem ok {a b : α} (h : R a b) : Carries R (.ok a) (.ok b) := by
  intro x hx
  obtain rfl := Except.ok.inj hx
  exact ⟨b, rfl, h⟩

/-- What refuses promises nothing. -/
theorem of_ne_ok {x : Reading α} (h : ∀ a, x ≠ .ok a) (y : Reading α) : Carries R x y :=
  fun a ha => absurd ha (h a)

/-- A failure asks nothing of the other text. -/
theorem error (failure : ParseFailure) (y : Reading α) : Carries R (.error failure) y :=
  of_ne_ok (fun _ => by simp) y

/-- A rule that gives up asks nothing of the other text. -/
theorem fail (c : Cursor) (kind : FailureKind) (y : Reading α) : Carries R (c.fail kind) y :=
  error _ y

/-- Related first steps, then related next ones. -/
theorem bind_of_ok {x y : Reading α} {f g : α → Reading β} (h : Carries R x y)
    (h' : ∀ a b, x = .ok a → R a b → Carries S (f a) (g b)) : Carries S (x >>= f) (y >>= g) := by
  intro found hfound
  obtain ⟨a, ha, hfound⟩ := bind_eq_ok.1 hfound
  obtain ⟨b, hb, hab⟩ := h a ha
  obtain ⟨found', hfound', hrelated⟩ := h' a b ha hab found hfound
  exact ⟨found', bind_eq_ok.2 ⟨b, hb, hfound'⟩, hrelated⟩

/-- Rules that carry over one by one carry over in a row. -/
theorem bind {x y : Reading α} {f g : α → Reading β} (h : Carries R x y)
    (h' : ∀ a b, R a b → Carries S (f a) (g b)) : Carries S (x >>= f) (y >>= g) :=
  h.bind_of_ok fun a b _ => h' a b

end Carries

/-! ## Texts that agree line by line -/

/-- Related texts go on in the same way up to the end of a line. -/
structure Linewise (R : List Char → List Char → Prop) : Prop where
  head?_eq : ∀ {u v : List Char}, R u v → u.head? = v.head?
  uncons : ∀ {ch : Char} {u v : List Char}, R (ch :: u) v → ch ≠ '\n' → ∃ w, v = ch :: w ∧ R u w

/-- The values are related, and so are the texts behind them. -/
def Along {α : Type} (R : List Char → List Char → Prop) (S : α → α → Prop) (p q : α × Cursor) :
    Prop :=
  S p.1 q.1 ∧ R p.2.rest q.2.rest

namespace Linewise

variable {R : List Char → List Char → Prop} (hR : Linewise R)
include hR

/-- What follows stops a run in both texts. -/
theorem stops {test : Char → Bool} {u v : List Char} (h : R u v) (hu : Stops test u) :
    Stops test v :=
  fun ch hch => hu ch ((hR.head?_eq h).trans hch)

/-- A number that is over in one text is over in the other. -/
theorem numberEnds {raw u v : List Char} (h : R u v) (hu : NumberEnds raw u) : NumberEnds raw v :=
  ⟨hR.stops h hu.1, fun hpoint => hR.head?_eq h ▸ hu.2 hpoint⟩

variable {c d : Cursor} (h : R c.rest d.rest)
include h

theorem current_eq : d.current = c.current :=
  (hR.head?_eq h).symm

/-- What stands on one line stands in both texts. -/
theorem passes {stop : Cursor} {text : List Char} (hp : c.Passes text stop) (hline : '\n' ∉ text) :
    ∃ last, d.Passes text last ∧ R stop.rest last.rest := by
  have hcut : ∀ {text u v : List Char}, R (text ++ u) v → '\n' ∉ text →
      ∃ w, v = text ++ w ∧ R u w := by
    intro text
    induction text with
    | nil => exact fun {u v} h _ => ⟨v, rfl, h⟩
    | cons ch text ih =>
      intro u v h hline
      obtain ⟨rest, rfl, hrest⟩ := hR.uncons h fun heq => hline (heq ▸ List.mem_cons_self)
      obtain ⟨w, rfl, hw⟩ := ih hrest fun hmem => hline (List.mem_cons_of_mem _ hmem)
      exact ⟨w, rfl, hw⟩
  rw [hp.1] at h
  obtain ⟨w, hrest, hw⟩ := hcut h hline
  exact ⟨_, Cursor.passes_of_rest hrest, hw⟩

/-- A run within one line is the same in both texts. -/
theorem skipWhile {test : Char → Bool} (hfeed : test '\n' = false) :
    d.leading test = c.leading test ∧ R (c.skipWhile test).rest (d.skipWhile test).rest := by
  have hall := Cursor.all_leading test c
  have hline : '\n' ∉ c.leading test := fun hmem => by
    have := hall _ hmem
    rw [hfeed] at this
    cases this
  obtain ⟨last, hp, hlast⟩ := hR.passes h (Cursor.passes_skipWhile test c) hline
  have hstops := hR.stops hlast (stops_dropWhile test c.rest)
  rw [Cursor.leading_eq hp hall hstops, Cursor.skipWhile_eq_iff.2 ⟨_, hp, hall, hstops⟩]
  exact ⟨rfl, hlast⟩

/-! ## Rules for tokens -/

/-- A rule carries over that reads one line, up to something that does not prolong it. -/
theorem carries_token {α : Type} {rule : Cursor → Reading (α × Cursor)} {good : α → Prop}
    {text : α → List Char} {ends : α → List Char → Prop}
    (hiff : ∀ {c stop : Cursor} {a : α},
      rule c = .ok (a, stop) ↔ good a ∧ c.Passes (text a) stop ∧ ends a stop.rest)
    (hline : ∀ {a}, good a → '\n' ∉ text a)
    (hends : ∀ {a u v}, R u v → ends a u → ends a v) :
    Carries (Along R Eq) (rule c) (rule d) := by
  rintro ⟨a, stop⟩ hread
  obtain ⟨ha, hp, hend⟩ := hiff.1 hread
  obtain ⟨last, hp', hlast⟩ := hR.passes h hp (hline ha)
  exact ⟨(a, last), hiff.2 ⟨ha, hp', hends hlast hend⟩, rfl, hlast⟩

theorem identifier : Carries (Along R Eq) (Grammar.identifier c) (Grammar.identifier d) :=
  hR.carries_token h identifier_eq_ok_iff (fun hname => (IsName.oneLine hname).1) hR.stops

theorem number : Carries (Along R Eq) (Grammar.number c) (Grammar.number d) :=
  hR.carries_token h number_eq_ok_iff (fun hnumber => hnumber.numeral.oneLine.1) hR.numberEnds

theorem stringLiteral :
    Carries (Along R Eq) (Grammar.stringLiteral c) (Grammar.stringLiteral d) := by
  rintro ⟨s, stop⟩ hread
  obtain ⟨hs, hp⟩ := stringLiteral_eq_ok_iff.1 hread
  obtain ⟨last, hp', hlast⟩ := hR.passes h hp hs.oneLine.1
  exact ⟨(s, last), stringLiteral_eq_ok_iff.2 ⟨hs, hp'⟩, rfl, hlast⟩

theorem literal : Carries (Along R Eq) (Grammar.literal c) (Grammar.literal d) := by
  refine hR.carries_token h literal_eq_ok_iff ?_ ?_
  · intro l hl
    cases l with
    | string s => exact (IsString.oneLine hl).1
    | number n => exact (IsNumber.numeral hl).oneLine.1
  · intro l u v huv hu
    cases l with
    | string s => trivial
    | number n => exact hR.numberEnds huv hu

theorem attributeAccessor :
    Carries (Along R Eq) (Grammar.attributeAccessor c) (Grammar.attributeAccessor d) := by
  refine hR.carries_token h attributeAccessor_eq_ok_iff (fun hattr => hattr.oneLine.1) ?_
  intro attr u v huv hu
  cases attr with
  | some id => exact hR.stops huv hu
  | none => exact fun hv => hu ((hR.head?_eq huv).trans hv)

theorem keyText : Carries (Along R Eq) (Grammar.keyText c) (Grammar.keyText d) := by
  refine hR.carries_token h keyText_eq_ok_iff ?_ ?_
  · intro key hkey
    cases key with
    | identifier id => exact (IsName.oneLine hkey).1
    | number n => exact (IsNumber.numeral hkey).oneLine.1
  · intro key u v huv hu
    cases key with
    | identifier id => exact hR.stops huv hu
    | number n => exact hR.numberEnds huv hu

/-! ## Single characters -/

/-- Behind a character that ends no line the texts are still related. -/
theorem bump {ch : Char} (hc : c.current = some ch) (hch : ch ≠ '\n') :
    R c.bump.rest d.bump.rest := by
  have hp := Cursor.passes_bump hc
  obtain ⟨last, hp', hlast⟩ := hR.passes h hp (by simpa using hch.symm)
  rwa [Cursor.bump_eq hp']

theorem expectChar {ch : Char} (hch : ch ≠ '\n') :
    Carries (fun p q => R p.rest q.rest) (Grammar.expectChar c ch) (Grammar.expectChar d ch) := by
  intro stop hread
  obtain ⟨hc, rfl⟩ := expectChar_eq_ok.1 hread
  exact ⟨d.bump, expectChar_eq_ok.2 ⟨(hR.current_eq h).trans hc, rfl⟩, hR.bump h hc hch⟩

/-- The character behind one that ends no line is the same in both texts. -/
theorem peek_eq {ch : Char} (hc : c.current = some ch) (hch : ch ≠ '\n') :
    d.peek 1 = c.peek 1 := by
  obtain ⟨last, hp⟩ : ∃ last, c.Passes [ch] last := ⟨_, Cursor.passes_bump hc⟩
  obtain ⟨last', hp', hlast⟩ := hR.passes h hp (by simpa using hch.symm)
  rw [Cursor.peek, Cursor.peek, hp.1, hp'.1]
  show last'.rest[0]? = last.rest[0]?
  rw [← List.head?_eq_getElem?, ← List.head?_eq_getElem?]
  exact (hR.head?_eq hlast).symm

theorem startsNumber_eq : startsNumber d = startsNumber c := by
  rw [startsNumber, startsNumber, hR.current_eq h]
  split
  · rename_i hc
    rw [hR.peek_eq h hc (by decide)]
  · rfl
  · rfl

theorem atArrow_eq : atArrow d = atArrow c := by
  rw [Bool.eq_iff_iff, atArrow_iff, atArrow_iff, hR.current_eq h]
  refine and_congr_right fun hc => ?_
  rw [hR.peek_eq h hc (by decide)]

/-- Behind an arrow. -/
theorem advance_arrow (hc : atArrow c = true) : R (c.advance 2).rest (d.advance 2).rest := by
  have harrow : ∀ {e : Cursor}, atArrow e = true → e.Passes ['-', '>'] (e.advance 2) := by
    intro e he
    rw [atArrow, Cursor.startsWith, List.isPrefixOf_iff_prefix] at he
    obtain ⟨text, htext⟩ := he
    have hp := Cursor.passes_of_rest htext.symm
    rwa [← Cursor.advance_eq hp] at hp
  obtain ⟨last, hp, hlast⟩ := hR.passes h (harrow hc) (by decide)
  rwa [hp.unique (harrow ((hR.atArrow_eq h).trans hc))] at hlast

end Linewise

end Fluent.Grammar
