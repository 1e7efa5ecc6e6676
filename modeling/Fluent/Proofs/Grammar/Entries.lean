/-
# Printed entries are read again

Messages and terms with their attributes, and comments.

* `entry_ok` : what was read as an entry;
* `attributesFrom_of_passes` : printed attributes are read one after the other;
* `entry_of_passes` : a printed entry is read again, wherever it may end.
-/
import Fluent.Proofs.Grammar.Comments
import Fluent.Proofs.Grammar.Placeables

namespace Fluent.Grammar

/-! ## What was read -/

/-- What can be read as an attribute. -/
structure AttributeReadable (deep : Nested) (a : Attribute) : Prop where
  name : IsName a.id.name.toList
  value : ∃ fixed, ReadablePattern (Reads (deep.placeable [])) fixed a.value

/-- What can be read as a message. -/
structure MessageReadable (deep : Nested) (m : Message) : Prop where
  name : IsName m.id.name.toList
  value : ∀ p, m.value = some p → ∃ fixed, ReadablePattern (Reads (deep.placeable [])) fixed p
  attributes : ∀ a ∈ m.attributes, AttributeReadable deep a
  field : (m.value.isNone && m.attributes.isEmpty) = false
  comment : m.comment = none

/-- What can be read as a term. -/
structure TermReadable (deep : Nested) (t : Term) : Prop where
  name : IsName t.id.name.toList
  value : ∃ fixed, ReadablePattern (Reads (deep.placeable [])) fixed t.value
  attributes : ∀ a ∈ t.attributes, AttributeReadable deep a
  comment : t.comment = none

/-- What can be read as an entry. -/
def EntryReadable (deep : Nested) : Entry → Prop
  | .message m => MessageReadable deep m
  | .term t => TermReadable deep t
  | .comment found => '\r' ∉ found.content.toList
  | .junk _ => False

/-- What was read behind an equals sign. -/
theorem assigned_ok {deep : Nested} {c stop : Cursor} {found : Option Pattern}
    (h : assigned deep c = .ok (found, stop)) (hclean : '\r' ∉ c.rest) :
    ∀ p, found = some p → ∃ fixed, ReadablePattern (Reads (deep.placeable [])) fixed p := by
  obtain ⟨start, hs, h⟩ := bind_eq_ok.1 h
  have hle : c ≤ start.skipBlankInline := Cursor.le_trans (Cursor.le_skipBlankInline c)
    (Cursor.le_trans (Cursor.le_of_lt (expectChar_lt hs)) (Cursor.le_skipBlankInline start))
  have hread := pattern_ok h (Cursor.not_mem_of_le hle hclean) (skipBlankInline_current_ne start)
  intro p hp
  rcases hread.2 with ⟨hnone, -⟩ | ⟨p', fixed, hp', hreadable⟩
  · rw [hnone] at hp
    cases hp
  · rw [hp'] at hp
    obtain rfl := Option.some.inj hp
    exact ⟨fixed, hreadable⟩

theorem oneAttribute_ok {deep : Nested} {c stop : Cursor} {a : Attribute}
    (h : oneAttribute deep c = .ok (a, stop)) (hclean : '\r' ∉ c.rest) :
    AttributeReadable deep a := by
  obtain ⟨start, behind, hs, hi, hv⟩ := oneAttribute_cases h
  have hlt := Cursor.lt_trans (expectChar_lt hs) (identifier_lt hi)
  have hvalue := assigned_ok hv (Cursor.not_mem_of_le (Cursor.le_of_lt hlt) hclean)
  exact ⟨(identifier_eq_ok_iff.1 hi).1, hvalue _ rfl⟩

/-- Each attribute of a list that was read can be printed and read again. -/
theorem attributesFrom_ok {deep : Nested} {before list : List Attribute} {c stop : Cursor}
    (h : attributesFrom deep before c = .ok (list, stop)) (hclean : '\r' ∉ c.rest)
    (hbefore : ∀ a ∈ before, AttributeReadable deep a) : ∀ a ∈ list, AttributeReadable deep a := by
  fun_induction attributesFrom deep before c with
  | case1 => cases h
  | case2 before c _ a last ha ih =>
    have hle := Cursor.le_skipBlank c
    have hlt := Cursor.lt_of_le_of_lt hle (oneAttribute_lt ha)
    refine ih h (Cursor.not_mem_of_le (Cursor.le_of_lt hlt) hclean) fun x hx => ?_
    rcases List.mem_cons.1 hx with rfl | hx
    · exact oneAttribute_ok ha (Cursor.not_mem_of_le hle hclean)
    · exact hbefore x hx
  | case3 =>
    obtain ⟨rfl, -⟩ := Prod.mk.inj (Except.ok.inj h)
    exact fun a ha => hbefore a (List.mem_reverse.1 ha)

theorem message_ok {deep : Nested} {c stop : Cursor} {m : Message}
    (h : message deep c = .ok (m, stop)) (hclean : '\r' ∉ c.rest) : MessageReadable deep m := by
  obtain ⟨behind, start, hi, hv, hl, hfield, hcomment⟩ := message_cases h
  have hlt := identifier_lt hi
  have hlt' := Cursor.lt_trans hlt (assigned_lt hv)
  have hvalue := assigned_ok hv (Cursor.not_mem_of_le (Cursor.le_of_lt hlt) hclean)
  have hattributes := attributesFrom_ok hl
    (Cursor.not_mem_of_le (Cursor.le_of_lt hlt') hclean) nofun
  exact ⟨(identifier_eq_ok_iff.1 hi).1, hvalue, hattributes, hfield, hcomment⟩

theorem term_ok {deep : Nested} {c stop : Cursor} {t : Term}
    (h : term deep c = .ok (t, stop)) (hclean : '\r' ∉ c.rest) : TermReadable deep t := by
  obtain ⟨first, behind, start, hs, hi, hv, hl, hcomment⟩ := term_cases h
  have hlt := Cursor.lt_trans (expectChar_lt hs) (identifier_lt hi)
  have hlt' := Cursor.lt_trans hlt (assigned_lt hv)
  have hvalue := assigned_ok hv (Cursor.not_mem_of_le (Cursor.le_of_lt hlt) hclean)
  have hattributes := attributesFrom_ok hl
    (Cursor.not_mem_of_le (Cursor.le_of_lt hlt') hclean) nofun
  exact ⟨(identifier_eq_ok_iff.1 hi).1, hvalue _ rfl, hattributes, hcomment⟩

/-- What was read as an entry. -/
theorem entry_ok {deep : Nested} {c stop : Cursor} {found : Entry}
    (h : entry deep c = .ok (found, stop)) (hclean : '\r' ∉ c.rest) : EntryReadable deep found := by
  rcases entry_cases h with ⟨text, rfl, -, htext⟩ | ⟨t, rfl, -, ht⟩ | ⟨m, rfl, hm⟩
  · exact comment_ok htext hclean
  · exact term_ok ht hclean
  · exact message_ok hm hclean

/-! ## Reading printed values and attributes -/

/-- What follows belongs to no value and is no attribute. -/
structure ValueEnds (c : Cursor) : Prop where
  pattern : PatternEnds c
  noAttribute : c.skipBlank.current ≠ some '.'

/-- Behind a name and a space the equals sign stands. -/
theorem start_of_equals {c stop : Cursor} {text : List Char}
    (hp : c.Passes (' ' :: '=' :: text) stop) :
    ∃ start, expectChar c.skipBlankInline '=' = .ok start ∧ start.Passes text stop := by
  obtain ⟨equals, hspace, hp⟩ := hp.uncons
  obtain ⟨start, hequals, hp⟩ := hp.uncons
  have hskip : c.skipBlankInline = equals := by
    refine Cursor.skipWhile_eq_iff.2 ⟨[' '], hspace, by simp, ?_⟩
    rw [hequals.1]
    exact stops_cons.2 (by decide)
  exact ⟨start, by rw [hskip]; exact expectChar_eq_ok_iff.2 hequals, hp⟩

/-- A printed value is read behind its equals sign. -/
theorem assigned_of_passes {deep : Nested} (hdeep : Canonical deep) {fixed : Bool} {p : Pattern}
    (hread : ReadablePattern (Reads (deep.placeable [])) fixed p) {n : Nat} {c stop : Cursor}
    (hp : c.Passes (' ' :: '=' :: indentBy n false (printValue p)) stop) (hend : PatternEnds stop) :
    assigned deep c = .ok (some p, stop) := by
  obtain ⟨start, hequals, hp⟩ := start_of_equals hp
  rw [assigned, hequals]
  exact hread.reads (fun e he => hdeep.placeable e he) n hp hend

/-- An attribute is printed on a line of its own, indented by four spaces, its value behind an
equals sign. -/
theorem attribute_print_eq (a : Attribute) :
    a.print = ('\n' :: List.replicate 4 ' ') ++ ('.' :: (a.id.name.toList ++
      (' ' :: '=' :: indentBy 4 false (printValue a.value)))) := by
  rw [Attribute.print, indentContinuations, indentFrom_eq_indentBy]
  simp [indentation]

namespace AttributeReadable

variable {deep : Nested} {a : Attribute}

/-- A printed attribute holds no carriage return. -/
theorem noReturn (h : AttributeReadable deep a) (hdeep : Canonical deep) : '\r' ∉ a.print := by
  obtain ⟨fixed, hvalue⟩ := h.value
  have hprint := hvalue.noReturn fun e he => (hdeep.placeable e he).noReturn
  have hlines : '\r' ∉ indentBy 4 false (printValue a.value) := by
    intro hmem
    rcases mem_indentBy hmem with hmem | hmem
    · exact hprint hmem
    · exact absurd hmem (by decide)
  have hname := h.name.oneLine.2
  rw [attribute_print_eq]
  simp [hname, hlines]

end AttributeReadable

/-- In front of an attribute no blanks are left. -/
theorem skipBlank_of_attribute {a : Attribute} {c stop : Cursor} (hp : c.Passes a.print stop) :
    c.current = some '\n' ∧ c.skipBlank.Passes ('.' :: (a.id.name.toList ++
      (' ' :: '=' :: indentBy 4 false (printValue a.value)))) stop := by
  rw [attribute_print_eq] at hp
  obtain ⟨point, hgap, hp⟩ := hp.split
  have hblank : Blank ('\n' :: List.replicate 4 ' ') := by
    simp [Blank, isBlank]
  rw [skipBlank_eq_of_passes hgap hblank hp.current_cons (by decide) (by decide)]
  exact ⟨hgap.current_cons, hp⟩

/-- A value ends where attributes follow, or where it ends without them. -/
theorem patternEnds_of_attributes {list : List Attribute} {c stop : Cursor}
    (hp : c.Passes (list.flatMap Attribute.print) stop) (hend : PatternEnds stop) :
    PatternEnds c := by
  cases list with
  | nil =>
    obtain rfl := hp.eq_of_nil
    exact hend
  | cons a rest =>
    rw [List.flatMap_cons] at hp
    obtain ⟨next, ha, -⟩ := hp.split
    obtain ⟨hfeed, hpoint⟩ := skipBlank_of_attribute ha
    refine patternEnds_of_skipBlank hfeed fun ch hch => ?_
    obtain rfl := Option.some.inj (hpoint.current_cons.symm.trans hch)
    rfl

/-- Printed attributes are read one after the other. -/
theorem attributesFrom_of_passes {deep : Nested} (hdeep : Canonical deep)
    {list before : List Attribute} (hlist : ∀ a ∈ list, AttributeReadable deep a)
    {c stop : Cursor} (hp : c.Passes (list.flatMap Attribute.print) stop) (hend : ValueEnds stop) :
    attributesFrom deep before c = .ok (before.reverse ++ list, stop) := by
  induction list generalizing before c with
  | nil =>
    obtain rfl := hp.eq_of_nil
    rw [attributesFrom_eq, if_neg fun h => hend.noAttribute h.2, List.append_nil]
  | cons a rest ih =>
    have ha := hlist a List.mem_cons_self
    obtain ⟨fixed, hvalue⟩ := ha.value
    rw [List.flatMap_cons] at hp
    obtain ⟨next, hprint, hrest⟩ := hp.split
    obtain ⟨hfeed, hpoint⟩ := skipBlank_of_attribute hprint
    obtain ⟨start, hdot, hname⟩ := hpoint.uncons
    obtain ⟨behind, hname, hassigned⟩ := hname.split
    -- the equals sign behind the name ends it
    have hends : Stops isIdentifierChar behind.rest := by
      rw [hassigned.1]
      exact stops_cons.2 (by decide)
    have hread : oneAttribute deep c.skipBlank = .ok (a, next) := by
      rw [oneAttribute, expectChar_eq_ok_iff.2 hdot]
      show (identifier start >>= _) = _
      rw [identifier_eq_ok_iff.2 ⟨ha.name, hname, hends⟩]
      show (assigned deep behind >>= _) = _
      rw [assigned_of_passes hdeep hvalue hassigned (patternEnds_of_attributes hrest hend.pattern)]
      rfl
    rw [attributesFrom_eq, if_pos ⟨hfeed, hpoint.current_cons⟩, hread]
    show attributesFrom deep (a :: before) next = _
    rw [ih (fun x hx => hlist x (List.mem_cons_of_mem _ hx)) hrest]
    simp

/-! ## Reading printed entries -/

/-- A printed entry that stands alone, without the line feed behind it. -/
def entryBody : Entry → List Char
  | .message m => m.id.name.toList ++ (' ' :: '=' ::
      ((m.value.map printValue).getD [] ++ m.attributes.flatMap Attribute.print))
  | .term t => '-' :: (t.id.name.toList ++ (' ' :: '=' ::
      (printValue t.value ++ t.attributes.flatMap Attribute.print)))
  | .comment found => found.body
  | .junk found => found.content.toList

/-- What follows belongs to no entry like this one. -/
def EntryEnds : Entry → Cursor → Prop
  | .comment found, c => CommentEnds found.level c
  | _, c => ValueEnds c

/-- A printed entry is its body with a line feed behind it, and one before it where entries are
kept apart. -/
theorem entry_print_eq {deep : Nested} {e : Entry} (h : EntryReadable deep e) (separate : Bool) :
    e.print separate = (if separate then ['\n'] else []) ++ (entryBody e ++ ['\n']) := by
  cases e with
  | message m => simp [Entry.print, Message.print, printAttached, entryBody, h.comment]
  | term t => simp [Entry.print, Term.print, printAttached, entryBody, h.comment]
  | comment found => rw [Entry.print, found.print_eq, entryBody]
  | junk found => exact h.elim

/-- A printed entry holds no carriage return. -/
theorem entry_noReturn {deep : Nested} (hdeep : Canonical deep) {e : Entry}
    (h : EntryReadable deep e) : '\r' ∉ entryBody e := by
  have hattributes : ∀ {list : List Attribute}, (∀ a ∈ list, AttributeReadable deep a) →
      '\r' ∉ list.flatMap Attribute.print := by
    intro list hlist hmem
    obtain ⟨a, ha, hmem⟩ := List.mem_flatMap.1 hmem
    exact (hlist a ha).noReturn hdeep hmem
  cases e with
  | message m =>
    have hname := h.name.oneLine.2
    have hlist := hattributes h.attributes
    have hvalue : '\r' ∉ (m.value.map printValue).getD [] := by
      cases hv : m.value with
      | none => exact List.not_mem_nil
      | some p =>
        obtain ⟨fixed, hp⟩ := h.value p hv
        exact hp.noReturn fun e he => (hdeep.placeable e he).noReturn
    simp only [entryBody]
    simp [hname, hlist, hvalue]
  | term t =>
    obtain ⟨fixed, hp⟩ := h.value
    have hname := h.name.oneLine.2
    have hlist := hattributes h.attributes
    have hvalue := hp.noReturn fun e he => (hdeep.placeable e he).noReturn
    simp only [entryBody]
    simp [hname, hlist, hvalue]
  | comment found =>
    have hprint := Comment.noReturn h
    rw [found.print_eq] at hprint
    exact fun hmem => hprint (List.mem_append_left _ hmem)
  | junk found => exact h.elim

/-- Behind its name a message or a term goes on with a space. -/
theorem identifier_of_passes {name : List Char} (hname : IsName name) {c stop : Cursor}
    {text : List Char} (hp : c.Passes (name ++ (' ' :: text)) stop) :
    ∃ behind, identifier c = .ok (String.ofList name, behind) ∧
      behind.Passes (' ' :: text) stop := by
  obtain ⟨behind, hn, hrest⟩ := hp.split
  have hends : Stops isIdentifierChar behind.rest := by
    rw [hrest.1]
    exact stops_cons.2 (by decide)
  refine ⟨behind, identifier_eq_ok_iff.2 ?_, hrest⟩
  rw [String.toList_ofList]
  exact ⟨hname, hn, hends⟩

/-- Without a value the attributes follow the equals sign. -/
theorem assigned_of_attributes (deep : Nested) {list : List Attribute} (hne : list ≠ [])
    {c stop : Cursor} (hp : c.Passes (' ' :: '=' :: list.flatMap Attribute.print) stop) :
    ∃ start, assigned deep c = .ok (none, start) ∧
      start.Passes (list.flatMap Attribute.print) stop := by
  obtain ⟨start, hequals, hp⟩ := start_of_equals hp
  obtain ⟨a, rest, rfl⟩ := List.exists_cons_of_ne_nil hne
  have hattributes := hp
  rw [List.flatMap_cons] at hp
  obtain ⟨next, ha, -⟩ := hp.split
  obtain ⟨hfeed, hpoint⟩ := skipBlank_of_attribute ha
  have hinline : start.skipBlankInline = start :=
    Cursor.skipWhile_of_stops (Cursor.stops_of_current hfeed (by decide))
  -- a point on the next line ends the value before it begins
  have hends : PatternEnds start := by
    refine patternEnds_of_skipBlank hfeed fun ch hch => ?_
    obtain rfl := Option.some.inj (hpoint.current_cons.symm.trans hch)
    rfl
  refine ⟨start, ?_, hattributes⟩
  rw [assigned, hequals]
  show pattern deep start.skipBlankInline = _
  rw [hinline]
  exact patternFrom_of_ends deep .empty none hends

/-- A printed message is read again. -/
theorem message_of_passes {deep : Nested} (hdeep : Canonical deep) {m : Message}
    (h : MessageReadable deep m) {c stop : Cursor} (hp : c.Passes (entryBody (.message m)) stop)
    (hend : ValueEnds stop) : message deep c = .ok (m, stop) := by
  obtain ⟨behind, hname, hp⟩ := identifier_of_passes h.name hp
  -- without a value the attributes follow the equals sign at once
  have hassigned : ∃ start, assigned deep behind = .ok (m.value, start) ∧
      start.Passes (m.attributes.flatMap Attribute.print) stop := by
    cases hv : m.value with
    | none =>
      have hne : m.attributes ≠ [] := by
        have hfield := h.field
        rw [hv] at hfield
        simpa using hfield
      rw [hv] at hp
      exact assigned_of_attributes deep hne hp
    | some p =>
      obtain ⟨fixed, hread⟩ := h.value p hv
      have hcut : ' ' :: '=' :: ((m.value.map printValue).getD [] ++
            m.attributes.flatMap Attribute.print) =
          (' ' :: '=' :: indentBy 0 false (printValue p)) ++
            m.attributes.flatMap Attribute.print := by
        rw [hv, indentBy_zero]
        rfl
      rw [hcut] at hp
      obtain ⟨start, hvalue, hlist⟩ := hp.split
      exact ⟨start, assigned_of_passes hdeep hread hvalue
        (patternEnds_of_attributes hlist hend.pattern), hlist⟩
  obtain ⟨start, hvalue, hlist⟩ := hassigned
  have hread : attributesFrom deep [] start = .ok (m.attributes, stop) :=
    attributesFrom_of_passes hdeep h.attributes hlist hend
  rw [message, hname]
  show (assigned deep behind >>= _) = _
  rw [hvalue]
  show (attributesFrom deep [] start >>= _) = _
  rw [hread]
  show (if (m.value.isNone && m.attributes.isEmpty) = true then _ else _) = _
  rw [h.field, if_neg (by decide), String.ofList_toList]
  show Except.ok (({ m with comment := none } : Message), stop) = _
  rw [← h.comment]

/-- A printed term is read again. -/
theorem term_of_passes {deep : Nested} (hdeep : Canonical deep) {t : Term}
    (h : TermReadable deep t) {c stop : Cursor} (hp : c.Passes (entryBody (.term t)) stop)
    (hend : ValueEnds stop) : term deep c = .ok (t, stop) := by
  obtain ⟨first, hminus, hp⟩ := Cursor.Passes.uncons hp
  obtain ⟨behind, hname, hp⟩ := identifier_of_passes h.name hp
  obtain ⟨fixed, hread⟩ := h.value
  have hcut : ' ' :: '=' :: (printValue t.value ++ t.attributes.flatMap Attribute.print) =
      (' ' :: '=' :: indentBy 0 false (printValue t.value)) ++
        t.attributes.flatMap Attribute.print := by
    rw [indentBy_zero]
    rfl
  rw [hcut] at hp
  obtain ⟨start, hvalue, hlist⟩ := hp.split
  have hassigned := assigned_of_passes hdeep hread hvalue
    (patternEnds_of_attributes hlist hend.pattern)
  have hattributes : attributesFrom deep [] start = .ok (t.attributes, stop) :=
    attributesFrom_of_passes hdeep h.attributes hlist hend
  rw [term, expectChar_eq_ok_iff.2 hminus]
  show (identifier first >>= _) = _
  rw [hname]
  show (assigned deep behind >>= _) = _
  rw [hassigned]
  show (attributesFrom deep [] start >>= _) = _
  rw [hattributes, String.ofList_toList]
  show Except.ok (({ t with comment := none } : Term), stop) = _
  rw [← h.comment]

/-- Where an identifier starts, a message is read. -/
theorem entry_of_message {deep : Nested} {c stop : Cursor} {m : Message} {ch : Char}
    (hc : c.current = some ch) (hch : isIdentifierStart ch = true)
    (h : message deep c = .ok (m, stop)) : entry deep c = .ok (.message m, stop) := by
  -- an identifier starts with neither of the marks that start the other entries
  have hne : ch ≠ '#' ∧ ch ≠ '-' := by
    constructor <;> rintro rfl <;> exact absurd hch (by decide)
  rw [entry, hc, if_neg (by simpa using hne.1), if_neg (by simpa using hne.2),
    if_pos (by simpa using hch), h]
  rfl

/-- **A printed entry is read again**, wherever it may end. -/
theorem entry_of_passes {deep : Nested} (hdeep : Canonical deep) {e : Entry}
    (h : EntryReadable deep e) {c stop : Cursor} (hp : c.Passes (entryBody e) stop)
    (hend : EntryEnds e stop) : entry deep c = .ok (e, stop) := by
  cases e with
  | message m =>
    obtain ⟨ch, rest, hcons, hch⟩ := h.name.cons
    have hc : c.current = some ch := by
      rw [entryBody, hcons] at hp
      exact hp.current_cons
    exact entry_of_message hc hch (message_of_passes hdeep h hp hend)
  | term t =>
    have hc : c.current = some '-' := Cursor.Passes.current_cons hp
    rw [entry, hc, if_neg (by decide), if_pos rfl, term_of_passes hdeep h hp hend]
    rfl
  | comment found =>
    obtain ⟨text, htext⟩ := found.body_cons
    have hc : c.current = some '#' := by
      rw [entryBody, htext] at hp
      exact hp.current_cons
    rw [entry, hc, if_pos rfl, comment_of_passes hp hend]
    rfl
  | junk found => exact h.elim

end Fluent.Grammar
