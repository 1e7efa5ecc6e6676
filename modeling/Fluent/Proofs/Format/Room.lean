/-
# Room

The levels of a session are tied together by recursion on the room that is left below its limit.
Room decides nothing: where it runs out, the limit has been reached as well, and any room that
reaches up to the limit gives the same result.

* `Resolving.AgreeAt` : two resolutions that do the same in every scope at a depth, and restore it;
* `Session.resolve_room` : of the value of any expression;
* `Session.formatAt_room` : of any text that is asked for;
* `Formatter.session_format_eq` : so a format call may be taken to start with any such room.
-/
import Fluent.Format.DepthBalance

namespace Fluent

namespace Resolving

variable {α β : Type} {depth : Nat}

/-- In every scope at the given depth both do the same, and restore the depth. -/
def AgreeAt (depth : Nat) (m m' : Resolving α) : Prop :=
  ∀ scope : Scope, scope.thread.depth.current = depth →
    m scope = m' scope ∧ (m scope).thread.depth.current = depth

/-- What is balanced, however low the limit, agrees with itself. -/
theorem Balanced.agree {m : Resolving α} (h : Balanced 0 m) : AgreeAt depth m m :=
  fun scope hd => ⟨rfl, (h scope).1.trans hd⟩

/-- Agreement at a depth goes both ways. -/
theorem AgreeAt.symm {m m' : Resolving α} (h : AgreeAt depth m m') : AgreeAt depth m' m := by
  intro scope hd
  obtain ⟨heq, hdepth⟩ := h scope hd
  exact ⟨heq.symm, heq ▸ hdepth⟩

theorem agree_pure (a : α) : AgreeAt depth (pure a : Resolving α) (pure a) :=
  fun _ hd => ⟨rfl, hd⟩

/-- Agreeing steps in a row agree: the first one restores the depth for the second. -/
theorem agree_bind {first first' : Resolving α} {next next' : α → Resolving β}
    (h : AgreeAt depth first first') (h' : ∀ a, AgreeAt depth (next a) (next' a)) :
    AgreeAt depth (first >>= next) (first' >>= next') := by
  intro scope hd
  obtain ⟨heq, hdepth⟩ := h scope hd
  cases hf : first scope with
  | returned a mid =>
    rw [hf] at hdepth
    rw [bind_of_returned hf, bind_of_returned (heq ▸ hf)]
    exact h' a mid hdepth
  | brokenOff thread =>
    rw [hf] at hdepth
    rw [bind_of_brokenOff hf, bind_of_brokenOff (heq ▸ hf)]
    exact ⟨rfl, hdepth⟩

/-- Bodies with the same arguments of their own agree. -/
theorem agree_withLocalArgs (args : Arguments) {body body' : Resolving α}
    (h : AgreeAt depth body body') :
    AgreeAt depth (withLocalArgs args body) (withLocalArgs args body') := by
  intro scope hd
  obtain ⟨heq, hdepth⟩ := h { scope with localArgs := some args } hd
  refine ⟨by rw [withLocalArgs_eq, withLocalArgs_eq, heq], ?_⟩
  rw [thread_withLocalArgs]
  exact hdepth

/-- Bodies under the same place agree. -/
theorem agree_withPlace (place : Place) {body body' : Resolving α} (h : AgreeAt depth body body') :
    AgreeAt depth (withPlace place body) (withPlace place body') := by
  intro scope hd
  obtain ⟨heq, hdepth⟩ := h { scope with trail := place :: scope.trail } hd
  refine ⟨by rw [withPlace_eq, withPlace_eq, heq], ?_⟩
  rw [thread_withPlace]
  exact hdepth

/-- One level deeper the bodies have to agree one level deeper. -/
theorem agree_guarded {own : Nat} {atLimit body body' : Resolving α}
    (hl : Balanced 0 atLimit) (h : AgreeAt (depth + 1) body body') :
    AgreeAt depth (guarded own atLimit body) (guarded own atLimit body') := by
  intro scope hd
  cases he : scope.thread.depth.enter? own with
  | none =>
    rw [guarded_of_full he, guarded_of_full he]
    exact hl.agree scope hd
  | some entered =>
    -- the body runs one level deeper, and leaving takes the level back
    have hentered : entered.current = depth + 1 := by
      rw [(Depth.enter?_eq_some_iff.1 he).2.1, hd]
    obtain ⟨heq, hdepth⟩ := h (scope.withDepth entered) hentered
    refine ⟨by rw [guarded_of_entered he, guarded_of_entered he, heq], ?_⟩
    rw [thread_guarded he]
    exact congrArg (· - 1) hdepth

/-- At the limit it does not matter what would be done one level deeper. -/
theorem agree_guarded_of_le {own : Nat} {atLimit : Resolving α} (hl : Balanced 0 atLimit)
    (body : Resolving α) (h : own ≤ depth) :
    AgreeAt depth atLimit (guarded own atLimit body) := by
  intro scope hd
  have hnone : scope.thread.depth.enter? own = none := by
    rw [Depth.enter?, if_neg (by omega)]
  refine ⟨?_, (hl.agree scope hd).2⟩
  rw [guarded_of_full hnone]

end Resolving

open Resolving

/-- At the given depth, texts that are asked for are the same, and leave the depth as it was. -/
def AskAgrees (depth : Nat) (ask ask' : Nat → Request → Thread → Formatted × Thread) : Prop :=
  ∀ place request (thread : Thread), thread.depth.current = depth →
    ask place request thread = ask' place request thread ∧
      (ask place request thread).2.depth.current = depth

/-! ## The steps of a level -/

/-- A call agrees with itself if the texts it asks for are the same at the given depth. -/
theorem agree_run {depth : Nat} {ask ask' : Nat → Request → Thread → Formatted × Thread}
    (h : AskAgrees depth ask ask') (call : Call) {thread : Thread}
    (hd : thread.depth.current = depth) :
    call.run ask thread = call.run ask' thread ∧
      (call.run ask thread).2.depth.current = depth := by
  induction call generalizing thread with
  | value v => exact ⟨rfl, hd⟩
  | failure error => exact ⟨rfl, hd⟩
  | breakOff => exact ⟨rfl, hd⟩
  | format place request resume ih =>
    obtain ⟨heq, hdepth⟩ := h place request thread hd
    rw [Call.run, Call.run, ← heq]
    exact ih _ hdepth

/-- So does the call on a level that answers alike. -/
theorem agree_level_run {depth : Nat} {level level' : Level}
    (h : AskAgrees depth level.ask level'.ask) (call : Call) :
    AgreeAt depth (level.run call) (level'.run call) := by
  intro scope hd
  obtain ⟨heq, hdepth⟩ := agree_run h call hd
  rw [Level.run, Level.run, ← heq]
  exact ⟨rfl, hdepth⟩

/-- The steps of resolving agree with themselves. -/
theorem congruence_agree (depth : Nat) : Congruence fun m m' => AgreeAt depth m m' where
  pure := agree_pure
  bind := agree_bind
  breakOff := balanced_breakOff.agree
  record error := (balanced_record error).agree
  valueOf? name := (balanced_valueOf? name).agree
  isOnTrail place := (balanced_isOnTrail place).agree
  withLocalArgs args _ _ := agree_withLocalArgs args
  withPlace place _ _ := agree_withPlace place

/-- Refusing at the limit takes no level. -/
theorem balanced_tooDeep (limit : Nat) : Balanced 0 (tooDeep limit) :=
  balanced_failed _ _

/-- What is contained is the same if its bodies agree. -/
theorem contained_agree {depth : Nat} (label : String) (args : Arguments)
    {body body' : Resolving Resolved} (h : Resolving.AgreeAt depth body body') {thread : Thread}
    (hd : thread.depth.current = depth) :
    contained label args body thread = contained label args body' thread := by
  have heq := (agree_bind h (congruence_agree depth).text { args := args, thread := thread } hd).1
  rw [contained, contained, heq]

/-! ## Whole runs -/

namespace Session

variable (session : Session)

/-- At the limit nothing is resolved, whatever the room. -/
theorem agree_tooDeep {depth : Nat} {formatter : Formatter} (h : formatter.limit ≤ depth)
    (room : Nat) (place : Place) (e : Expression) :
    AgreeAt depth (tooDeep formatter.limit) (session.resolve room formatter place e) := by
  cases room with
  | zero => exact (balanced_tooDeep _).agree
  | succ room => exact agree_guarded_of_le (balanced_tooDeep _) _ h

/-- The same of a text that is asked for. -/
theorem formatAt_tooDeep {depth : Nat} {formatter : Formatter} (h : formatter.limit ≤ depth)
    (room : Nat) (request : Request) {thread : Thread} (hd : thread.depth.current = depth) :
    session.formatAt room formatter request thread =
      contained request.target.label request.args (tooDeep formatter.limit) thread := by
  cases room with
  | zero => rfl
  | succ room =>
    exact (contained_agree _ _ (agree_guarded_of_le (balanced_tooDeep _) _ h) hd).symm

/-- Two rooms that reach up to the limit agree. -/
theorem agree_at {room room' depth : Nat} (h : session.limit ≤ depth + room)
    (h' : session.limit ≤ depth + room') :
    (∀ formatter ∈ session.formatters, ∀ place e, AgreeAt depth
      (session.resolve room formatter place e) (session.resolve room' formatter place e)) ∧
    (∀ formatter ∈ session.formatters, ∀ request (thread : Thread),
      thread.depth.current = depth →
        session.formatAt room formatter request thread =
          session.formatAt room' formatter request thread) := by
  induction room generalizing room' depth with
  | zero =>
    refine ⟨fun formatter hf place e =>
      session.agree_tooDeep (Nat.le_trans (limit_le hf) h) room' place e,
      fun formatter hf request thread hd => ?_⟩
    exact (session.formatAt_tooDeep (Nat.le_trans (limit_le hf) h) room' request hd).symm
  | succ room ih =>
    cases room' with
    | zero =>
      refine ⟨fun formatter hf place e =>
        (session.agree_tooDeep (Nat.le_trans (limit_le hf) h') _ place e).symm,
        fun formatter hf request thread hd => ?_⟩
      exact session.formatAt_tooDeep (Nat.le_trans (limit_le hf) h') _ request hd
    | succ room' =>
      -- one level deeper both rooms are smaller by one, and still reach up to the limit
      have hdeeper : session.limit ≤ depth + 1 + room := by omega
      have hdeeper' : session.limit ≤ depth + 1 + room' := by omega
      obtain ⟨hresolve, hformat⟩ := ih hdeeper hdeeper'
      have hsteps := congruence_agree (depth + 1)
      have hask : AskAgrees (depth + 1) (fun n => session.formatAt room (session.formatter n))
          (fun n => session.formatAt room' (session.formatter n)) := by
        intro place request thread hd
        have hmem := session.formatter_mem place
        exact ⟨hformat _ hmem request thread hd,
          (session.balances_formatAt room hmem request thread).1.trans hd⟩
      have hlevel : ∀ formatter ∈ session.formatters, (session.level room formatter).Related
          (fun m m' => AgreeAt (depth + 1) m m') (session.level room' formatter) :=
        fun formatter hf => ⟨rfl, hresolve formatter hf, fun call _ => agree_level_run hask call⟩
      refine ⟨fun formatter hf place e => ?_, fun formatter hf request thread hd => ?_⟩
      · exact agree_guarded (balanced_tooDeep _) ((hlevel formatter hf).expression hsteps _ _)
      · exact contained_agree _ _
          (agree_guarded (balanced_tooDeep _) ((hlevel formatter hf).target hsteps _)) hd

/-- Any room that reaches up to the limit gives an expression the same value. -/
theorem resolve_room {room room' : Nat} {formatter : Formatter}
    (hf : formatter ∈ session.formatters) (place : Place) (e : Expression) {scope : Scope}
    (h : session.limit ≤ scope.thread.depth.current + room)
    (h' : session.limit ≤ scope.thread.depth.current + room') :
    session.resolve room formatter place e scope =
      session.resolve room' formatter place e scope :=
  ((session.agree_at h h').1 formatter hf place e scope rfl).1

/-- Any room that reaches up to the limit gives the same text. -/
theorem formatAt_room {room room' : Nat} {formatter : Formatter}
    (hf : formatter ∈ session.formatters) (request : Request) {thread : Thread}
    (h : session.limit ≤ thread.depth.current + room)
    (h' : session.limit ≤ thread.depth.current + room') :
    session.formatAt room formatter request thread =
      session.formatAt room' formatter request thread :=
  (session.agree_at h h').2 formatter hf request thread rfl

/-- Formatting is what it would be with any greater room. -/
theorem format_eq_formatAt {room : Nat} (request : Request) {thread : Thread}
    (h : session.limit ≤ thread.depth.current + room) :
    session.format request thread = session.formatAt room session.main request thread :=
  session.formatAt_room List.mem_cons_self request (by omega) h

/-- Formatting a message is resolving a reference to it in a scope of its own. -/
theorem formatAt_message (room : Nat) (formatter : Formatter) (id : String) (attr : Option String)
    (args : Arguments) (thread : Thread) (place : Place) :
    session.formatAt room formatter ⟨.message id attr, args⟩ thread =
      contained (referenceLabel id attr) args
        (session.resolve room formatter place (.message ⟨id⟩ (attr.map Identifier.mk))) thread := by
  have hattr : (attr.map Identifier.mk).map (·.name) = attr := by
    cases attr <;> rfl
  cases room with
  | zero => rfl
  | succ room =>
    show _ = contained _ _ (.guarded _ _
      ((session.level room formatter).message id ((attr.map Identifier.mk).map (·.name)))) _
    rw [hattr]
    rfl

end Session

/-- A format call resolves a reference to the message, with any room that reaches up to the limit. -/
theorem Formatter.session_format_eq (formatter : Formatter) (id : String) (attr : Option String)
    (args : Arguments) {room : Nat} (h : formatter.limit ≤ room) :
    Session.format ⟨formatter, []⟩ ⟨.message id attr, args⟩ =
      contained (referenceLabel id attr) args (Session.resolve ⟨formatter, []⟩ room
        formatter ⟨.standalone, []⟩ (.message ⟨id⟩ (attr.map Identifier.mk))) {} := by
  have hroom : Session.limit ⟨formatter, []⟩ ≤ 0 + room := by
    show max formatter.limit 0 ≤ 0 + room
    omega
  rw [Session.format_eq_formatAt _ _ hroom, ← Session.formatAt_message]

end Fluent
