/-
# What the limit on errors decides

The limit on errors only cuts the resource off: up to the last piece of junk that it allows, a
source is read as if there were none, and that piece takes the rest of the text.

* `itemsFrom_limit` : the items under a limit, beside those without one;
* `parse_errorLimit` : the entries under a limit, told of those without one.
-/
import Fluent.Proofs.Resource.Concatenation

namespace Fluent

open Grammar

/-! ## The last junk -/

/-- The junk that takes the rest of the text, as it is the last of `limit` pieces. -/
def Junk.toEnd (limit : Nat) (text : List Char) (junk : Junk) : Junk :=
  { content := String.ofList (dropBytes junk.span.start text)
    annotations := junk.annotations ++
      [{ code := .tooManyErrors
         message := "parsing stopped after " ++ limit.repr ++ " errors"
         span := ⟨junk.span.stop, utf8Length text⟩ }]
    span := ⟨junk.span.start, utf8Length text⟩ }

/-- The last junk before parsing stops is the junk between the cursors, extended to the end of the
text. -/
theorem finalJunk_eq {text : List Char} {c : Cursor} (h : Cursor.ofText text ≤ c)
    (failure : ParseFailure) (limit : Nat) (stop : Cursor) :
    finalJunk failure limit (utf8Length text) c stop =
      (junkBetween failure (utf8Length text) c stop).toEnd limit text := by
  rw [finalJunk, Junk.toEnd, junkBetween, (dropBytes_pos h).1]
  rfl

/-- How many items are junk. -/
def junkCount (list : List Item) : Nat :=
  list.countP fun item => item.entry.isJunk

/-- Of the items of a text the first ones are kept under a limit: all of them if fewer than `limit`
are junk, or the last one that is allowed ends with the text; otherwise those before that one, which
takes the rest. -/
inductive CutOff (text : List Char) (limit : Nat) (list : List Item) : List Item → Prop
  | few (h : junkCount list < limit) : CutOff text limit list list
  | last {first : List Item} {junk : Junk} {start stop : Nat}
      (hlist : list = first ++ [⟨start, stop, .junk junk⟩])
      (hcount : junkCount first + 1 = limit) (hstop : junk.span.stop = utf8Length text) :
      CutOff text limit list list
  | cut {first rest : List Item} {junk : Junk} {start stop : Nat}
      (hlist : list = first ++ ⟨start, stop, .junk junk⟩ :: rest)
      (hcount : junkCount first + 1 = limit) (hstop : junk.span.stop ≠ utf8Length text)
      (hreason : ∃ reason, junk.annotations = [reason]) :
      CutOff text limit list
        (first ++ [⟨start, utf8Length text, .junk (junk.toEnd limit text)⟩])

/-- The loop puts new items behind those that it has. -/
theorem itemsFrom_append (rule : Rule Entry) (limit size : Nat) (before : List Item)
    (errors : Nat) (c : Cursor) :
    ∃ rest, itemsFrom rule limit size before errors c = before.reverse ++ rest := by
  fun_induction itemsFrom rule limit size before errors c with
  | case1 before => exact ⟨[], (List.append_nil _).symm⟩
  | case2 _ _ _ _ _ _ _ ih | case4 _ _ _ _ _ _ _ _ ih =>
    obtain ⟨rest, hrest⟩ := ih
    exact ⟨_ :: rest, by rw [hrest, List.reverse_cons, List.append_assoc]; rfl⟩
  | case3 before => exact ⟨_, List.reverse_cons⟩

/-- Reading on under a limit leads to what is left of the items that are read without one. -/
theorem itemsFrom_limit {rule : Rule Entry} {text : List Char} {limit errors : Nat}
    {before : List Item} {c : Cursor} (hlimit : errors < limit)
    (herrors : errors = junkCount before)
    (hrule : ∀ c e stop, rule.run c = .ok (e, stop) → e.isJunk = false)
    (hc : Cursor.ofText text ≤ c) :
    CutOff text limit (itemsFrom rule 0 (utf8Length text) before errors c)
      (itemsFrom rule limit (utf8Length text) before errors c) := by
  have hreverse : ∀ list : List Item, junkCount list.reverse = junkCount list := fun list =>
    List.countP_reverse
  fun_induction itemsFrom rule limit (utf8Length text) before errors c with
  | case1 before errors c hnil =>
    rw [itemsFrom, dif_pos hnil]
    exact .few (by rwa [hreverse, ← herrors])
  | case2 before errors c hne e stop hread ih =>
    rw [itemsFrom_ok hread]
    refine ih hlimit ?_ ?_
    · simp [junkCount, herrors, hrule c e stop hread]
    · exact Cursor.le_trans hc (Cursor.le_trans (Cursor.le_of_lt (rule.advances hread))
        (Cursor.le_skipBlankLines stop))
  | case3 before errors c hne failure hread stop hcut =>
    have hplace : stop.pos + utf8Length stop.rest = utf8Length text :=
      (dropBytes_pos (Cursor.le_trans hc (le_nextItemStart c))).2
    have hrest : stop.rest ≠ [] := by simpa [Cursor.atEnd] using hcut.2.2
    obtain ⟨rest, hlist⟩ := itemsFrom_append rule 0 (utf8Length text)
      (⟨c.pos, stop.pos, .junk (junkBetween failure (utf8Length text) c stop)⟩ :: before)
      (errors + 1) stop.skipBlankLines
    rw [itemsFrom_error hne hread, hlist, finalJunk_eq hc, List.reverse_cons, List.reverse_cons,
      List.append_assoc]
    refine .cut rfl ?_ ?_ ⟨_, rfl⟩
    · rw [hreverse, ← herrors]
      omega
    · have hpos := utf8Length_pos hrest
      show stop.pos ≠ _
      omega
  | case4 before errors c hne failure hread stop hcut ih =>
    rw [itemsFrom_error hne hread]
    have hstop : Cursor.ofText text ≤ stop := Cursor.le_trans hc (le_nextItemStart c)
    by_cases hmore : errors + 1 < limit
    · refine ih hmore ?_ (Cursor.le_trans hstop (Cursor.le_skipBlankLines stop))
      simp [junkCount, herrors, Entry.isJunk]
    -- the last junk that is allowed ends with the text, so nothing is left to read
    · have hrest : stop.rest = [] := by
        by_contra hrest
        exact hcut ⟨by omega, by omega, by simpa [Cursor.atEnd] using hrest⟩
      have hend : stop.skipBlankLines.rest = [] := by
        have hlength := Cursor.length_le_of_le (Cursor.le_skipBlankLines stop)
        rw [hrest] at hlength
        exact List.length_eq_zero_iff.1 (Nat.le_zero.1 hlength)
      have hdone : ∀ limit, itemsFrom rule limit (utf8Length text)
          (⟨c.pos, stop.pos, .junk (junkBetween failure (utf8Length text) c stop)⟩ :: before)
          (errors + 1) stop.skipBlankLines = before.reverse ++
            [⟨c.pos, stop.pos, .junk (junkBetween failure (utf8Length text) c stop)⟩] := by
        intro limit
        rw [itemsFrom, dif_pos hend, List.reverse_cons]
      rw [hdone, hdone]
      refine .last rfl ?_ ?_
      · rw [hreverse, ← herrors]
        omega
      · have hplace := (dropBytes_pos hstop).2
        rw [hrest] at hplace
        exact hplace

/-! ## Entries -/

/-- A member of a kind is told by how many of that kind stand before it. -/
theorem append_cons_unique {α : Type} {p : α → Bool} {l l' r r' : List α} {a a' : α}
    (h : l ++ a :: r = l' ++ a' :: r') (ha : p a = true) (ha' : p a' = true)
    (hcount : l.countP p = l'.countP p) : l = l' ∧ a = a' ∧ r = r' := by
  rcases List.append_eq_append_iff.1 h with ⟨u, rfl, hu⟩ | ⟨u, rfl, hu⟩
  · cases u with
    | nil => simp_all
    | cons x u =>
      obtain ⟨rfl, -⟩ := List.cons.inj hu
      simp [List.countP_append, ha] at hcount
  · cases u with
    | nil => simp_all
    | cons x u =>
      obtain ⟨rfl, -⟩ := List.cons.inj hu
      simp [List.countP_append, ha'] at hcount

/-- Junk between two lists of entries counts once. -/
theorem countP_append_junk (before after : List Entry) (junk : Junk) :
    (before ++ .junk junk :: after).countP Entry.isJunk =
      before.countP Entry.isJunk + 1 + after.countP Entry.isJunk := by
  rw [List.countP_append, List.countP_cons_of_pos rfl]
  omega

/-- What is left of items that wait for their comments waits for them as well. -/
theorem CutOff.parts {text : List Char} {limit : Nat} {list limited : List Item}
    (h : CutOff text limit list limited) (hparts : ∀ item ∈ list, item.entry.parts = [item.entry]) :
    ∀ item ∈ limited, item.entry.parts = [item.entry] := by
  cases h with
  | few | last => exact hparts
  | cut hlist =>
    intro item hitem
    rcases List.mem_append.1 hitem with hitem | hitem
    · exact hparts item (hlist ▸ List.mem_append_left _ hitem)
    · obtain rfl := List.mem_singleton.1 hitem
      rfl

/-- Under a limit on errors the entries are woven of what is left of the items. -/
theorem exists_cutOff (limit n : Nat) (hn : 1 ≤ n) (source : List Char) :
    ∃ list, CutOff (unifyLineEnds source) n (itemsOf limit source) list ∧
      (Resource.parse { ParserSettings.nestingOnly limit with maxParseErrors := n } source).entries =
        weave list := by
  have hparts := (segmented_itemsOf limit source).parts
  have hrule : ∀ c e stop, (entryWithin limit).run c = .ok (e, stop) → e.isJunk = false := by
    intro c e stop hread
    obtain ⟨mid, -, hentry, -⟩ := entryLine_eq_ok_iff.1 hread
    cases e with
    | junk junk => exact absurd rfl (entry_ne_junk hentry junk)
    | message | term | comment => rfl
  have hcut : CutOff (unifyLineEnds source) n (itemsOf limit source)
      (items (entryWithin limit) n (unifyLineEnds source)) :=
    itemsFrom_limit hn rfl hrule (Cursor.le_skipBlankLines _)
  refine ⟨_, hcut, ?_⟩
  rw [← attachComments_eq_weave (hcut.parts hparts), ← Rule.ext_run (entryTwice_run limit)]
  rfl

/-- **The limit on errors only truncates.**  If fewer than `n` entries are junk, or the last one
that is allowed ends with the text, the limit changes nothing.  Otherwise the entries before that
one stay as they are, and it takes the rest of the text, with the limit as a second reason. -/
theorem parse_errorLimit (limit n : Nat) (hn : 1 ≤ n) (source : List Char) :
    let text := unifyLineEnds source
    let unlimited := (Resource.parse (.nestingOnly limit) source).entries
    let limited := (Resource.parse
      { ParserSettings.nestingOnly limit with maxParseErrors := n } source).entries
    (unlimited.countP Entry.isJunk < n → limited = unlimited) ∧
    (∀ before junk after, unlimited = before ++ .junk junk :: after →
      before.countP Entry.isJunk + 1 = n →
      (junk.span.stop = utf8Length text → limited = unlimited) ∧
      (junk.span.stop ≠ utf8Length text → ∃ reason, junk.annotations = [reason] ∧
        limited = before ++ [.junk
          { content := String.ofList (dropBytes junk.span.start text)
            annotations := [reason,
              { code := .tooManyErrors
                message := "parsing stopped after " ++ n.repr ++ " errors"
                span := ⟨junk.span.stop, utf8Length text⟩ }]
            span := ⟨junk.span.start, utf8Length text⟩ }])) ∧
    limited.countP Entry.isJunk ≤ n := by
  intro text unlimited limited
  have hunlimited : unlimited = weave (itemsOf limit source) :=
    congrArg Resource.entries (parse_eq_weave limit source)
  obtain ⟨list, hcut, hlimited⟩ := exists_cutOff limit n hn source
  change limited = weave list at hlimited
  rw [hunlimited, hlimited]
  cases hcut with
  | few h =>
    -- attaching comments neither makes nor loses junk, so it may be counted before
    rw [junkCount, ← countP_weave] at h
    refine ⟨fun _ => rfl, fun before junk after hsplit hcount => ?_, Nat.le_of_lt h⟩
    rw [hsplit, countP_append_junk] at h
    omega
  | @last first found start stop hlist hcount hstop =>
    rw [junkCount, ← countP_weave] at hcount
    rw [hlist, weave_append_junk first [] rfl]
    refine ⟨fun _ => rfl, fun before junk after hsplit hbefore => ⟨fun _ => rfl, fun hne => ?_⟩, ?_⟩
    · obtain ⟨-, hsame, -⟩ := append_cons_unique hsplit rfl rfl (p := Entry.isJunk) (by omega)
      obtain rfl := Entry.junk.inj hsame
      exact absurd hstop hne
    · rw [countP_append_junk]
      exact Nat.le_of_eq hcount
  | @cut first rest found start stop hlist hcount hstop hreason =>
    rw [junkCount, ← countP_weave] at hcount
    rw [hlist, weave_append_junk first rest rfl, weave_append_junk first [] rfl]
    refine ⟨fun hfew => ?_, fun before junk after hsplit hbefore => ?_, ?_⟩
    · rw [countP_append_junk] at hfew
      omega
    · -- the junk with this count is the one at which the loop stopped
      obtain ⟨rfl, hsame, -⟩ := append_cons_unique hsplit rfl rfl (p := Entry.isJunk) (by omega)
      obtain rfl := Entry.junk.inj hsame
      obtain ⟨reason, hannotations⟩ := hreason
      refine ⟨fun heq => absurd heq hstop, fun _ => ⟨reason, hannotations, ?_⟩⟩
      rw [Junk.toEnd, hannotations]
      rfl
    · rw [countP_append_junk]
      exact Nat.le_of_eq hcount

/-- Of three pieces of junk the second one takes the rest of the text.  The comment that waits
before it stays, and the message behind it is not read any more. -/
theorem parse_errorLimit_two :
    let source := "\x7b one\n# note\n\x7b two\nhello = Hi\n\x7d three\n".toList
    let unlimited := (Resource.parse (.nestingOnly 1) source).entries
    let limited := (Resource.parse
      { ParserSettings.nestingOnly 1 with maxParseErrors := 2 } source).entries
    let reason : Annotation := ⟨.unreadable,
      "expected an entry start (expected a message or a term or a comment)", ⟨13, 14⟩⟩
    1 ≤ 2 ∧ unlimited.countP Entry.isJunk = 3 ∧
      unlimited =
        unlimited.take 2 ++ .junk ⟨"\x7b two\n", [reason], ⟨13, 19⟩⟩ :: unlimited.drop 3 ∧
      limited = unlimited.take 2 ++ [.junk ⟨"\x7b two\nhello = Hi\n\x7d three\n",
        [reason, ⟨.tooManyErrors, "parsing stopped after 2 errors", ⟨19, 38⟩⟩], ⟨13, 38⟩⟩] ∧
      limited.countP Entry.isJunk ≤ 2 := by
  intro source unlimited limited reason
  have hsplit : unlimited =
      unlimited.take 2 ++ .junk ⟨"\x7b two\n", [reason], ⟨13, 19⟩⟩ :: unlimited.drop 3 := by
    decide +kernel
  obtain ⟨-, hcut, hcount⟩ := parse_errorLimit 1 2 (by decide) source
  -- the second junk ends before the text does
  obtain ⟨_, hreason, hlimited⟩ := (hcut _ _ _ hsplit (by decide +kernel)).2 (by decide +kernel)
  obtain rfl := List.singleton_inj.1 hreason
  have hrest : String.ofList (dropBytes 13 (unifyLineEnds source)) =
      "\x7b two\nhello = Hi\n\x7d three\n" := by
    decide +kernel
  have hend : utf8Length (unifyLineEnds source) = 38 := by decide +kernel
  have htwo : "parsing stopped after " ++ (2 : Nat).repr ++ " errors" =
      "parsing stopped after 2 errors" := by
    decide +kernel
  rw [hrest, hend, htwo] at hlimited
  exact ⟨by decide, by decide +kernel, hsplit, hlimited, hcount⟩

end Fluent
