import Mathlib.Logic.Basic
import RowQuery.Proofs.Sifting
import RowQuery.Proofs.Trace

set_option autoImplicit false

/-! # What a stream asks for

A round of a stream goes down to one of its leaves, or to an operator that opens an input. What it
reaches there is noted with the way down (`Note`): the query of which a stream is opened, or the
entry that a leaf takes off its script, which is none when the script has run out. The notes of a
round (`Stream.notes`) say more than its events, in which leaves of one name look the same, and
nothing else: `filter_reaches_step` reads the openings and polls of a round off its notes.

Nothing in a stream makes pauses of its own. Where all leaves follow scripts, a round answers that
it is not ready exactly if the entry that it takes is a pause (`countP_isPause_notes`). -/

namespace RowQuery

/-! ## Notes -/

/-- The way from an operator to the stream of one of its inputs. -/
inductive Branch where
  | input
  | outer
  | inner
  deriving DecidableEq

/-- What is reached in a round. -/
inductive Reach where
  /-- A stream of a query is opened. -/
  | opened (q : Query)
  /-- A leaf takes the next entry of its script. -/
  | took (leaf : Leaf) (entry : Option (Item Value))

/-- What is reached, and the way there. -/
structure Note where
  path : List Branch
  what : Reach

namespace Note

/-- A note of an input, as its operator sees it. -/
def under (b : Branch) (n : Note) : Note := { n with path := b :: n.path }

/-- An input is opened. -/
def opened (b : Branch) (q : Query) : Note := ⟨[b], .opened q⟩

/-- A leaf takes an entry. -/
def took (leaf : Leaf) (entry : Option (Item Value)) : Note := ⟨[], .took leaf entry⟩

/-- Whether the entry that is taken is a pause. -/
def isPause (n : Note) : Bool :=
  match n.what with
  | .took _ (some .pending) => true
  | _ => false

/-- The events that are noted. -/
def events (n : Note) : List Event :=
  match n.what with
  | .opened q => q.openEvents
  | .took leaf _ => [.polled leaf]

end Note

/-- Whether an event opens a stream or polls a leaf. -/
def Event.reaches : Event → Bool
  | .opened _ => true
  | .polled _ => true
  | _ => false

namespace Stream

/-- The input of an operator is opened if its expressions compile. -/
def openedIf {α : Type} (result : Except EvalError α) (b : Branch) (input : Query) : List Note :=
  if result.isOk then [.opened b input] else []

/-- The inner query of a join is opened if the outer stream has given a row. -/
def openedFor (inner : Query) : Option Answer → List Note
  | some (.row _) => [.opened .inner inner]
  | _ => []

/-- What a round of a stream reaches. -/
def notes (setting : Setting) (token : Bool) : Stream → List Note
  | .values rest => [.took .values (rest.head?.map .value)]
  | .script name rest => [.took (.script name) rest.head?]
  | .stalled => [.took .stalled (some .pending)]
  | .failing e => [.took .failing (e.map .error)]
  | .counting _ inner => notes setting token inner
  | .cancellable inner => if token then [] else notes setting token inner
  | .filterIdle input p => if token then [] else openedIf (setting.compile p 1).1 .input input
  | .filterOpen _ input => if token then [] else (notes setting token input).map (.under .input)
  | .projectIdle input e => if token then [] else openedIf (setting.compile e 1).1 .input input
  | .projectOpen _ input => if token then [] else (notes setting token input).map (.under .input)
  | .joinIdle outer _ condition combine =>
    if token then [] else openedIf (setting.compileBoth condition combine 2).1 .outer outer
  | .joinOuter inner _ _ outer =>
    if token then []
    else (notes setting token outer).map (.under .outer)
      ++ openedFor inner (step setting token outer).answer
  | .joinInner _ _ _ _ _ current =>
    if token then [] else (notes setting token current).map (.under .inner)
  | .sqlReading columns connection rest =>
    [.took (.reader connection) (rest.head?.map (Item.labelled columns))]
  | _ => []

/-- What the rounds of a poll reach. -/
def notesOfPoll (setting : Setting) (token : Bool) (s : Stream) : List Note :=
  (turns setting token s).flatMap (fun t => t.stream.notes t.setting token)

theorem notesOfPoll_of_step_some {setting : Setting} {token : Bool} {s next : Stream}
    {answer : Answer} {events : List Event}
    (h : step setting token s = ⟨some answer, next, events⟩) :
    notesOfPoll setting token s = s.notes setting token := by
  rw [notesOfPoll, turns_of_step_some h, List.flatMap_singleton]

theorem notesOfPoll_of_step_none {setting : Setting} {token : Bool} {s next : Stream}
    {events : List Event} (h : step setting token s = ⟨none, next, events⟩) :
    notesOfPoll setting token s
      = s.notes setting token ++ notesOfPoll (setting.recordAll events) token next := by
  rw [notesOfPoll, turns_of_step_none h, List.flatMap_cons]
  rfl

/-- What the polls of a stream reach, with the answer of each poll behind what it has reached. -/
def record : List Occasion → Stream → List (Note ⊕ Answer)
  | [], _ => []
  | o :: rest, s =>
    (notesOfPoll o.setting o.cancelled s).map .inl
      ++ .inr (poll o.setting o.cancelled s).answer ::
        record rest (poll o.setting o.cancelled s).next

/-! ## Notes and events -/

theorem sifts_reaches : Sifts Event.reaches := ⟨fun _ => rfl, fun _ => rfl, fun _ => rfl⟩

/-- The way down does not show in the events. -/
theorem events_under (b : Branch) (notes : List Note) :
    (notes.map (.under b)).flatMap Note.events = notes.flatMap Note.events := by
  rw [List.flatMap_map]
  rfl

/-- The first round of an operator opens its input once everything has been compiled. -/
theorem filter_reaches_opening {events : List Event} (h : ∀ e ∈ events, ∃ cell, e = .compiled cell)
    (b : Branch) (input : Query) :
    (events ++ input.openEvents).filter Event.reaches
      = [Note.opened b input].flatMap Note.events :=
  (sifts_reaches.filter_opening h input).trans (List.append_nil _).symm

theorem events_openedFor (inner : Query) (answer : Option Answer) :
    (openedFor inner answer).flatMap Note.events
      = (pulled inner answer).flatMap (·.query.openEvents) := by
  rcases answer with _ | v | e | _ | _ <;> rfl

theorem filter_reaches_sqlStart (setting : Setting) (q : SqlQuery) :
    (sqlStart setting q).events.filter Event.reaches = [] := by
  unfold sqlStart
  cases q.command with
  | error e => rfl
  | ok command =>
      dsimp only
      split <;> rfl

/-- **The notes of a round are its openings and its polls.** -/
theorem filter_reaches_step (setting : Setting) (token : Bool) (s : Stream) :
    (step setting token s).events.filter Event.reaches
      = (s.notes setting token).flatMap Note.events := by
  induction s with
  | values rest => cases rest <;> rfl
  | script name rest => rcases rest with _ | ⟨_ | _ | _, rest⟩ <;> rfl
  | failing e => cases e <;> rfl
  | counting counter inner ih => exact ih
  | cancellable inner ih =>
      cases token with
      | true => exact sifts_reaches.filter_release inner
      | false => exact (sifts_reaches.filter_around _ inner).trans ih
  | filterIdle input p =>
      cases token with
      | true => rfl
      | false =>
          have hcompiled : ∀ e ∈ (setting.compile p 1).2, ∃ cell, e = .compiled cell :=
            fun _ => Setting.compiled_of_mem_compile
          rw [step, notes, if_neg Bool.false_ne_true, if_neg Bool.false_ne_true]
          generalize setting.compile p 1 = result at hcompiled ⊢
          rcases result with ⟨err | c, events⟩
          · exact sifts_reaches.filter_compiled hcompiled
          · exact filter_reaches_opening hcompiled .input input
  | filterOpen c input ih =>
      cases token with
      | true => exact sifts_reaches.filter_release input
      | false =>
          exact (sifts_reaches.filter_filterNext _ c).trans
            (ih.trans (events_under .input _).symm)
  | projectIdle input e =>
      cases token with
      | true => rfl
      | false =>
          have hcompiled : ∀ event ∈ (setting.compile e 1).2, ∃ cell, event = .compiled cell :=
            fun _ => Setting.compiled_of_mem_compile
          rw [step, notes, if_neg Bool.false_ne_true, if_neg Bool.false_ne_true]
          generalize setting.compile e 1 = result at hcompiled ⊢
          rcases result with ⟨err | c, events⟩
          · exact sifts_reaches.filter_compiled hcompiled
          · exact filter_reaches_opening hcompiled .input input
  | projectOpen c input ih =>
      cases token with
      | true => exact sifts_reaches.filter_release input
      | false =>
          exact (sifts_reaches.filter_projectNext _ c).trans
            (ih.trans (events_under .input _).symm)
  | joinIdle outer inner condition combine =>
      cases token with
      | true => rfl
      | false =>
          have hcompiled : ∀ e ∈ (setting.compileBoth condition combine 2).2,
              ∃ cell, e = .compiled cell :=
            fun _ => Setting.compiled_of_mem_compileBoth
          rw [step, notes, if_neg Bool.false_ne_true, if_neg Bool.false_ne_true]
          generalize setting.compileBoth condition combine 2 = result at hcompiled ⊢
          rcases result with ⟨err | c, events⟩
          · exact sifts_reaches.filter_compiled hcompiled
          · exact filter_reaches_opening hcompiled .outer outer
  | joinOuter inner c d outer ih =>
      cases token with
      | true => exact sifts_reaches.filter_release outer
      | false =>
          -- a row opens the inner query behind everything that the outer stream has reached
          rw [step, notes, if_neg Bool.false_ne_true, if_neg Bool.false_ne_true,
            sifts_reaches.filter_joinOuterNext, ih, List.flatMap_append, events_under,
            events_openedFor]
  | joinInner inner c d outer row current _ ih =>
      cases token with
      | true =>
          show (outer.release ++ current.release).filter _ = []
          rw [sifts_reaches.filter_append_release, sifts_reaches.filter_release]
      | false =>
          exact (sifts_reaches.filter_joinInnerNext _ inner c d outer row).trans
            (ih.trans (events_under .inner _).symm)
  | sqlIdle q => exact filter_reaches_sqlStart setting q
  | sqlExecuting columns connection delay reply =>
      rcases step_sqlExecuting_cases setting token columns connection delay reply
        with ⟨delay', hr⟩ | ⟨e, hr⟩ | ⟨rows, hr⟩ <;>
      rw [hr] <;> rfl
  | sqlReading columns connection rest =>
      rw [step]
      rcases sqlNext_cases columns connection rest with ⟨a, -, hr⟩ | ⟨a, more, -, hr⟩ <;>
      rw [hr] <;> rfl
  | _ => rfl

/-- So are the notes of a poll. -/
theorem filter_reaches_poll (setting : Setting) (token : Bool) (s : Stream) :
    (poll setting token s).events.filter Event.reaches
      = (notesOfPoll setting token s).flatMap Note.events := by
  fun_induction poll setting token s with
  | case1 setting s answer next events hs =>
      have hround := filter_reaches_step setting token s
      rw [hs] at hround
      rw [notesOfPoll_of_step_some hs]
      exact hround
  | case2 setting s next events hs rest ih =>
      have hround := filter_reaches_step setting token s
      rw [hs] at hround
      rw [notesOfPoll_of_step_none hs, List.flatMap_append, List.filter_append, hround, ih]

/-! ## Leaves that follow scripts -/

/-- All leaves follow scripts, those that have not been opened yet included, and no table is among
them. -/
def Scripted : Stream → Prop
  | .counting _ inner => Scripted inner
  | .cancellable inner => Scripted inner
  | .filterIdle input _ => input.Replays
  | .filterOpen _ input => Scripted input
  | .projectIdle input _ => input.Replays
  | .projectOpen _ input => Scripted input
  | .joinIdle outer inner _ _ => outer.Replays ∧ inner.Replays
  | .joinOuter inner _ _ outer => Scripted outer ∧ inner.Replays
  | .joinInner inner _ _ outer _ current => Scripted outer ∧ Scripted current ∧ inner.Replays
  | .stalled => False
  | .sqlIdle _ => False
  | .sqlExecuting .. => False
  | .sqlReading .. => False
  | _ => True

theorem scripted_stream {q : Query} (h : q.Replays) : q.stream.Scripted := by
  induction q with
  | script name items observesToken => cases observesToken <;> trivial
  | counting counter input ih => exact ih h
  | absorbing name supported refusal input ih => exact ih h
  | declining supported input ih => exact ih h
  | localFilter input p => exact h
  | localProject input e => exact h
  | localJoin outer inner condition combine => exact h
  | stalled => exact h
  | sql q => exact h
  | _ => trivial

theorem hereditary_scripted : Hereditary Stream.Scripted Query.Replays where
  stream _ := scripted_stream
  values _ := trivial
  script _ _ := trivial
  failing _ := trivial
  closed := trivial
  counting _ _ := Iff.rfl
  cancellable _ := Iff.rfl
  filterIdle _ _ := Iff.rfl
  filterOpen _ _ := Iff.rfl
  projectIdle _ _ := Iff.rfl
  projectOpen _ _ := Iff.rfl
  joinIdle _ _ _ _ := Iff.rfl
  joinOuter _ _ _ _ := Iff.rfl
  joinInner _ _ _ _ _ _ := Iff.rfl
  sqlStart _ _ h := absurd h id
  sqlDelayed _ _ _ _ _ h := h
  sqlExecuted _ _ _ _ _ h := absurd h id
  sqlReading _ _ _ _ h := h

/-- A round opens streams of the same query only, so the leaves stay what they are. -/
theorem scripted_step (setting : Setting) (token : Bool) {s : Stream} (h : s.Scripted) :
    (step setting token s).next.Scripted :=
  hereditary_scripted.step setting token h

theorem scripted_poll (setting : Setting) (token : Bool) {s : Stream} (h : s.Scripted) :
    (poll setting token s).next.Scripted :=
  poll_keeps (P := Stream.Scripted) (fun g t _ hs => scripted_step g t hs) setting token s h

/-! ## Pauses -/

section Pauses

variable {r : Round Stream}

/-! An operator is not ready exactly if its input is not. -/

theorem filterNext_pending_iff (c : CompiledExpr) :
    (filterNext c r).answer = some .pending ↔ r.answer = some .pending := by
  obtain ⟨answer, next, events⟩ := r
  rcases answer with _ | v | e | _ | _
  · rfl
  · simp only [filterNext]
    split <;> simp [close]
  · rfl
  · rfl
  · rfl

theorem projectNext_pending_iff (c : CompiledExpr) :
    (projectNext c r).answer = some .pending ↔ r.answer = some .pending := by
  obtain ⟨answer, next, events⟩ := r
  rcases answer with _ | v | e | _ | _
  · rfl
  · simp only [projectNext]
    split <;> simp [close]
  · rfl
  · rfl
  · rfl

theorem joinOuterNext_pending_iff (inner : Query) (c d : CompiledExpr) :
    (joinOuterNext inner c d r).answer = some .pending ↔ r.answer = some .pending := by
  obtain ⟨answer, next, events⟩ := r
  rcases answer with _ | v | e | _ | _ <;> simp [joinOuterNext, close]

theorem joinInnerNext_pending_iff (inner : Query) (c d : CompiledExpr) (outer : Stream)
    (row : Value) :
    (joinInnerNext inner c d outer row r).answer = some .pending ↔ r.answer = some .pending := by
  obtain ⟨answer, next, events⟩ := r
  rcases answer with _ | v | e | _ | _
  · rfl
  · simp only [joinInnerNext]
    split <;> simp
  · simp [joinInnerNext]
  · rfl
  · simp [joinInnerNext]

theorem around_pending_iff (inner : Stream) :
    ((Cancellable.around release false inner (fun _ => r)).map adapter).answer = some .pending
      ↔ r.answer = some .pending := by
  obtain ⟨answer, next, events⟩ := r
  rcases answer with _ | v | e | _ | _ <;> rfl

/-! Then it keeps its input as it is after the round. -/

theorem filterNext_of_pending (c : CompiledExpr) (h : r.answer = some .pending) :
    filterNext c r = ⟨some .pending, .filterOpen c r.next, r.events⟩ := by
  simp only [filterNext, h]

theorem projectNext_of_pending (c : CompiledExpr) (h : r.answer = some .pending) :
    projectNext c r = ⟨some .pending, .projectOpen c r.next, r.events⟩ := by
  simp only [projectNext, h]

theorem joinOuterNext_of_pending (inner : Query) (c d : CompiledExpr)
    (h : r.answer = some .pending) :
    joinOuterNext inner c d r = ⟨some .pending, .joinOuter inner c d r.next, r.events⟩ := by
  simp only [joinOuterNext, h]

theorem joinInnerNext_of_pending (inner : Query) (c d : CompiledExpr) (outer : Stream)
    (row : Value) (h : r.answer = some .pending) :
    joinInnerNext inner c d outer row r
      = ⟨some .pending, .joinInner inner c d outer row r.next, r.events⟩ := by
  simp only [joinInnerNext, h]

theorem around_of_pending (inner : Stream) (h : r.answer = some .pending) :
    (Cancellable.around release false inner (fun _ => r)).map adapter
      = ⟨some .pending, .cancellable r.next, r.events⟩ := by
  obtain ⟨answer, next, events⟩ := r
  cases h
  rfl

end Pauses

theorem countP_isPause_under (b : Branch) (notes : List Note) :
    (notes.map (.under b)).countP Note.isPause = notes.countP Note.isPause := by
  rw [List.countP_map]
  rfl

/-- Opening a stream is not a pause. -/
theorem countP_isPause_openedIf {α : Type} (result : Except EvalError α) (b : Branch)
    (input : Query) : (openedIf result b input).countP Note.isPause = 0 := by
  unfold openedIf
  split <;> rfl

theorem countP_isPause_openedFor (inner : Query) (answer : Option Answer) :
    (openedFor inner answer).countP Note.isPause = 0 := by
  rcases answer with _ | v | e | _ | _ <;> rfl

/-- **A round is not ready exactly if the entry that it takes is a pause.** -/
theorem countP_isPause_notes (setting : Setting) (token : Bool) {s : Stream} (h : s.Scripted) :
    (s.notes setting token).countP Note.isPause
      = if (step setting token s).answer = some .pending then 1 else 0 := by
  induction s with
  | values rest => cases rest <;> rfl
  | script name rest => rcases rest with _ | ⟨_ | _ | _, rest⟩ <;> rfl
  | failing e => cases e <;> rfl
  | counting counter inner ih => exact ih h
  | cancellable inner ih =>
      cases token with
      | true => rfl
      | false => exact (ih h).trans (if_congr (around_pending_iff inner).symm rfl rfl)
  | filterIdle input p =>
      cases token with
      | true => rfl
      | false =>
          rw [notes, step, if_neg Bool.false_ne_true, if_neg Bool.false_ne_true,
            countP_isPause_openedIf]
          split <;> rfl
  | filterOpen c input ih =>
      cases token with
      | true => rfl
      | false =>
          exact (countP_isPause_under .input _).trans
            ((ih h).trans (if_congr (filterNext_pending_iff c).symm rfl rfl))
  | projectIdle input e =>
      cases token with
      | true => rfl
      | false =>
          rw [notes, step, if_neg Bool.false_ne_true, if_neg Bool.false_ne_true,
            countP_isPause_openedIf]
          split <;> rfl
  | projectOpen c input ih =>
      cases token with
      | true => rfl
      | false =>
          exact (countP_isPause_under .input _).trans
            ((ih h).trans (if_congr (projectNext_pending_iff c).symm rfl rfl))
  | joinIdle outer inner condition combine =>
      cases token with
      | true => rfl
      | false =>
          rw [notes, step, if_neg Bool.false_ne_true, if_neg Bool.false_ne_true,
            countP_isPause_openedIf]
          split <;> rfl
  | joinOuter inner c d outer ih =>
      cases token with
      | true => rfl
      | false =>
          rw [notes, if_neg Bool.false_ne_true, List.countP_append, countP_isPause_under,
            countP_isPause_openedFor, Nat.add_zero, ih h.1]
          exact if_congr (joinOuterNext_pending_iff inner c d).symm rfl rfl
  | joinInner inner c d outer row current _ ih =>
      cases token with
      | true => rfl
      | false =>
          exact (countP_isPause_under .inner _).trans
            ((ih h.2.1).trans
              (if_congr (joinInnerNext_pending_iff inner c d outer row).symm rfl rfl))
  | closed => rfl
  | _ => exact absurd h id

/-- A poll that is not ready has taken one pause, and any other poll none. -/
theorem countP_isPause_notesOfPoll (setting : Setting) (token : Bool) {s : Stream}
    (h : s.Scripted) :
    (notesOfPoll setting token s).countP Note.isPause
      = if (poll setting token s).answer = .pending then 1 else 0 := by
  fun_induction poll setting token s with
  | case1 setting s answer next events hs =>
      have hround := countP_isPause_notes setting token h
      rw [hs] at hround
      rw [notesOfPoll_of_step_some hs, hround]
      exact if_congr Option.some_inj rfl rfl
  | case2 setting s next events hs rest ih =>
      have hround := countP_isPause_notes setting token h
      have hnext := scripted_step setting token h
      rw [hs] at hround hnext
      -- a round without an answer has taken none
      rw [notesOfPoll_of_step_none hs, List.countP_append, hround, ih hnext,
        if_neg (Option.some_ne_none _).symm, Nat.zero_add]

/-! ## Records -/

/-- The answers on record are those of the polls. -/
theorem answers_of_record (occasions : List Occasion) (s : Stream) :
    (s.record occasions).filterMap Sum.getRight? = (s.pollAll occasions).answers := by
  induction occasions generalizing s with
  | nil => rfl
  | cons o rest ih =>
      have hnotes : ∀ notes : List Note,
          (notes.map (fun n => (.inl n : Note ⊕ Answer))).filterMap Sum.getRight? = [] := by
        intro notes
        rw [List.filterMap_map]
        exact List.filterMap_eq_nil_iff.mpr (fun _ _ => rfl)
      rw [record, List.filterMap_append, hnotes]
      exact congrArg (List.cons _) (ih _)

/-- What the polls of a schedule have reached. -/
def reached (occasions : List Occasion) (s : Stream) : List Note :=
  (s.record occasions).filterMap Sum.getLeft?

theorem reached_cons (o : Occasion) (rest : List Occasion) (s : Stream) :
    s.reached (o :: rest)
      = notesOfPoll o.setting o.cancelled s
        ++ (poll o.setting o.cancelled s).next.reached rest := by
  rw [reached, record, List.filterMap_append, List.filterMap_map]
  show List.filterMap some _ ++ List.filterMap Sum.getLeft? _ = _
  rw [List.filterMap_some]
  rfl

/-- It is what their events open and poll. -/
theorem filter_reaches_pollAll (occasions : List Occasion) (s : Stream) :
    (s.pollAll occasions).events.filter Event.reaches
      = (s.reached occasions).flatMap Note.events := by
  induction occasions generalizing s with
  | nil => rfl
  | cons o rest ih =>
      rw [reached_cons, List.flatMap_append, ← ih, ← filter_reaches_poll]
      exact List.filter_append _ _

/-- There are as many pauses on record as answers that the stream is not ready. -/
theorem countP_isPause_reached (occasions : List Occasion) {s : Stream} (h : s.Scripted) :
    (s.reached occasions).countP Note.isPause
      = (s.pollAll occasions).answers.count .pending := by
  induction occasions generalizing s with
  | nil => rfl
  | cons o rest ih =>
      have hpoll := countP_isPause_notesOfPoll o.setting o.cancelled h
      rw [reached_cons, List.countP_append, hpoll, ih (scripted_poll o.setting o.cancelled h),
        pollAll, List.count_cons, Nat.add_comm]
      congr 1
      exact if_congr beq_iff_eq.symm rfl rfl

end Stream

end RowQuery
