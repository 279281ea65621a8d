import RowQuery.Query.Poll

set_option autoImplicit false

/-! # Streams under a schedule

A stream is polled again and again, and between two polls anything may happen: other streams are
polled, expressions get compiled, connections change how they answer, the token is cancelled. All
that a poll sees of this is its `Occasion`. A *schedule* is a list of occasions, one for each poll,
and nothing is assumed of them; `Stream.pollAll` is what a stream answers and does under a schedule.

Two things are said once for all schedules. A property that every round keeps is kept by every poll
(`poll_keeps`, `pollAll_keeps`). And the stream of an operator, wherever it stands in its loop,
either goes on as one or has closed with the end or an error as its answer (`closesWithLast`), after
which it only answers that it has ended.
-/

namespace RowQuery

/-- Whether an enumeration is over with this answer. -/
def Answer.isLast : Answer → Bool
  | .error _ => true
  | .finished => true
  | _ => false

/-- What a poll finds when it comes. -/
structure Occasion where
  setting : Setting
  /-- Whether the token that the stream observes has been cancelled. -/
  cancelled : Bool

/-- An occasion before any cancellation. -/
def Occasion.live (setting : Setting) : Occasion := ⟨setting, false⟩

/-- What the polls of a stream come to. -/
structure Polls where
  answers : List Answer
  next : Stream
  events : List Event

namespace Stream

/-- Polls a stream once for every occasion. -/
def pollAll : List Occasion → Stream → Polls
  | [], s => ⟨[], s, []⟩
  | o :: rest, s =>
    let p := poll o.setting o.cancelled s
    let later := pollAll rest p.next
    ⟨p.answer :: later.answers, later.next, p.events ++ later.events⟩

/-! ## What every round keeps -/

/-- A poll keeps what every round keeps. -/
theorem poll_keeps {P : Stream → Prop}
    (hstep : ∀ setting token s, P s → P (step setting token s).next)
    (setting : Setting) (token : Bool) (s : Stream) (h : P s) : P (poll setting token s).next := by
  fun_induction poll setting token s with
  | case1 setting s answer next events hs =>
      have hnext := hstep setting token s h
      rwa [hs] at hnext
  | case2 setting s next events hs rest ih =>
      have hnext := hstep setting token s h
      rw [hs] at hnext
      exact ih hnext

/-- What the last answer leads to and what the other rounds keep is the same for a poll as for a
round: a round without an answer leaves a stream in its loop. -/
theorem poll_ends {E P : Stream → Prop}
    (hstep : ∀ setting token s, P s →
      if (step setting token s).answer.any Answer.isLast then E (step setting token s).next
      else P (step setting token s).next)
    (setting : Setting) (token : Bool) {s : Stream} (h : P s) :
    if (poll setting token s).answer.isLast then E (poll setting token s).next
    else P (poll setting token s).next := by
  fun_induction poll setting token s with
  | case1 setting s answer next events hs =>
      have hround := hstep setting token s h
      rwa [hs] at hround
  | case2 setting s next events hs rest ih =>
      have hround := hstep setting token s h
      rw [hs] at hround
      exact ih hround

/-- What every round keeps is kept by a schedule. -/
theorem pollAll_keeps {P : Stream → Prop}
    (hstep : ∀ setting token s, P s → P (step setting token s).next) :
    ∀ (occasions : List Occasion) (s : Stream), P s → P (s.pollAll occasions).next
  | [], _, h => h
  | o :: rest, s, h => pollAll_keeps hstep rest _ (poll_keeps hstep o.setting o.cancelled s h)

/-! ## Streams that have closed -/

theorem poll_closed (setting : Setting) (token : Bool) :
    poll setting token .closed = ⟨.finished, .closed, []⟩ := by
  apply poll_of_step_some
  rfl

/-- A stream that has closed answers that it has ended, for good. -/
theorem pollAll_closed (occasions : List Occasion) :
    pollAll occasions .closed = ⟨List.replicate occasions.length .finished, .closed, []⟩ := by
  induction occasions with
  | nil => rfl
  | cons o rest ih =>
      show Polls.mk _ _ _ = _
      rw [poll_closed, ih]
      rfl

/-! ## Operators -/

/-- Whether the stream belongs to an operator that is carried out here and has not closed. -/
def isLocal : Stream → Bool
  | .filterIdle .. => true
  | .filterOpen .. => true
  | .projectIdle .. => true
  | .projectOpen .. => true
  | .joinIdle .. => true
  | .joinOuter .. => true
  | .joinInner .. => true
  | _ => false

/-! The first round of an operator compiles its expressions. Then it opens its input, unless they do
not compile. -/

/-- The first round of a filter. -/
theorem step_filterIdle (setting : Setting) (input : Query) (p : Expr) :
    ∃ events, (∀ e ∈ events, ∃ cell, e = .compiled cell) ∧
      ((∃ err, step setting false (.filterIdle input p) =
          ⟨some (.error (.evaluation err)), .closed, events⟩) ∨
        (∃ c, step setting false (.filterIdle input p) =
          ⟨none, .filterOpen c (.cancellable input.stream), events ++ input.openEvents⟩)) := by
  refine ⟨(setting.compile p 1).2, fun _ => Setting.compiled_of_mem_compile, ?_⟩
  rw [step, if_neg Bool.false_ne_true]
  rcases setting.compile p 1 with ⟨err | c, events⟩
  · exact .inl ⟨err, rfl⟩
  · exact .inr ⟨c, rfl⟩

/-- The first round of a projection. -/
theorem step_projectIdle (setting : Setting) (input : Query) (e : Expr) :
    ∃ events, (∀ event ∈ events, ∃ cell, event = .compiled cell) ∧
      ((∃ err, step setting false (.projectIdle input e) =
          ⟨some (.error (.evaluation err)), .closed, events⟩) ∨
        (∃ c, step setting false (.projectIdle input e) =
          ⟨none, .projectOpen c (.cancellable input.stream), events ++ input.openEvents⟩)) := by
  refine ⟨(setting.compile e 1).2, fun _ => Setting.compiled_of_mem_compile, ?_⟩
  rw [step, if_neg Bool.false_ne_true]
  rcases setting.compile e 1 with ⟨err | c, events⟩
  · exact .inl ⟨err, rfl⟩
  · exact .inr ⟨c, rfl⟩

/-- The first round of a join. -/
theorem step_joinIdle (setting : Setting) (outer inner : Query) (condition combine : Expr) :
    ∃ events, (∀ e ∈ events, ∃ cell, e = .compiled cell) ∧
      ((∃ err, step setting false (.joinIdle outer inner condition combine) =
          ⟨some (.error (.evaluation err)), .closed, events⟩) ∨
        (∃ c d, step setting false (.joinIdle outer inner condition combine) =
          ⟨none, .joinOuter inner c d (.cancellable outer.stream),
            events ++ outer.openEvents⟩)) := by
  refine ⟨(setting.compileBoth condition combine 2).2,
    fun _ => Setting.compiled_of_mem_compileBoth, ?_⟩
  rw [step, if_neg Bool.false_ne_true]
  rcases setting.compileBoth condition combine 2 with ⟨err | ⟨c, d⟩, events⟩
  · exact .inl ⟨err, rfl⟩
  · exact .inr ⟨c, d, rfl⟩

/-! What an operator makes of a round of its input is said once for each of them. Either it closes,
with the end or an error as its answer, or it holds on to its input; a join may besides start or end
an inner enumeration. -/

/-- A filter closes or goes on with its input. -/
theorem filterNext_cases (c : CompiledExpr) (r : Round Stream) :
    (∃ a : Answer, a.isLast = true ∧ filterNext c r = close r a) ∨
    (∃ answer : Option Answer, answer.any Answer.isLast = false ∧
      filterNext c r = ⟨answer, .filterOpen c r.next, r.events⟩) := by
  obtain ⟨answer, next, events⟩ := r
  rcases answer with _ | v | e | _ | _
  · exact .inr ⟨none, rfl, rfl⟩
  · -- only an element is tested
    cases hv : c.evalPredicate [v] with
    | error e => exact .inl ⟨.error (.evaluation e), rfl, by simp only [filterNext, hv]⟩
    | ok holds =>
        cases holds with
        | true => exact .inr ⟨some (.row v), rfl, by simp only [filterNext, hv]⟩
        | false => exact .inr ⟨none, rfl, by simp only [filterNext, hv]⟩
  · exact .inl ⟨.error e, rfl, rfl⟩
  · exact .inr ⟨some .pending, rfl, rfl⟩
  · exact .inl ⟨.finished, rfl, rfl⟩

/-- A projection closes or goes on with its input. -/
theorem projectNext_cases (c : CompiledExpr) (r : Round Stream) :
    (∃ a : Answer, a.isLast = true ∧ projectNext c r = close r a) ∨
    (∃ answer : Option Answer, answer.any Answer.isLast = false ∧
      projectNext c r = ⟨answer, .projectOpen c r.next, r.events⟩) := by
  obtain ⟨answer, next, events⟩ := r
  rcases answer with _ | v | e | _ | _
  · exact .inr ⟨none, rfl, rfl⟩
  · cases hv : c.eval [v] with
    | error e => exact .inl ⟨.error (.evaluation e), rfl, by simp only [projectNext, hv]⟩
    | ok w => exact .inr ⟨some (.row w), rfl, by simp only [projectNext, hv]⟩
  · exact .inl ⟨.error e, rfl, rfl⟩
  · exact .inr ⟨some .pending, rfl, rfl⟩
  · exact .inl ⟨.finished, rfl, rfl⟩

/-- A join closes, waits for its outer stream, or opens an inner stream for an outer element. -/
theorem joinOuterNext_cases (inner : Query) (c d : CompiledExpr) (r : Round Stream) :
    (∃ a : Answer, a.isLast = true ∧ joinOuterNext inner c d r = close r a) ∨
    (∃ answer : Option Answer, answer.any Answer.isLast = false ∧
      joinOuterNext inner c d r = ⟨answer, .joinOuter inner c d r.next, r.events⟩) ∨
    (∃ row : Value, joinOuterNext inner c d r =
      ⟨none, .joinInner inner c d r.next row (.cancellable inner.stream),
        r.events ++ inner.openEvents⟩) := by
  obtain ⟨answer, next, events⟩ := r
  rcases answer with _ | v | e | _ | _
  · exact .inr (.inl ⟨none, rfl, rfl⟩)
  · exact .inr (.inr ⟨v, rfl⟩)
  · exact .inl ⟨.error e, rfl, rfl⟩
  · exact .inr (.inl ⟨some .pending, rfl, rfl⟩)
  · exact .inl ⟨.finished, rfl, rfl⟩

/-- A join closes, goes on with its inner stream, or drops it and returns to the outer one. -/
theorem joinInnerNext_cases (inner : Query) (c d : CompiledExpr) (outer : Stream) (row : Value)
    (r : Round Stream) :
    (∃ a : Answer, a.isLast = true ∧ joinInnerNext inner c d outer row r =
      ⟨some a, .closed, r.events ++ r.next.release ++ outer.release⟩) ∨
    (∃ answer : Option Answer, answer.any Answer.isLast = false ∧
      joinInnerNext inner c d outer row r =
        ⟨answer, .joinInner inner c d outer row r.next, r.events⟩) ∨
    joinInnerNext inner c d outer row r =
      ⟨none, .joinOuter inner c d outer, r.events ++ r.next.release⟩ := by
  obtain ⟨answer, next, events⟩ := r
  rcases answer with _ | v | e | _ | _
  · exact .inr (.inl ⟨none, rfl, rfl⟩)
  · -- the two elements match, do not match, or cannot be compared
    cases hv : matched c d row v with
    | error e => exact .inl ⟨.error (.evaluation e), rfl, by simp only [joinInnerNext, hv]⟩
    | ok result =>
        cases result with
        | some w => exact .inr (.inl ⟨some (.row w), rfl, by simp only [joinInnerNext, hv]⟩)
        | none => exact .inr (.inl ⟨none, rfl, by simp only [joinInnerNext, hv]⟩)
  · exact .inl ⟨.error e, rfl, rfl⟩
  · exact .inr (.inl ⟨some .pending, rfl, rfl⟩)
  · exact .inr (.inr rfl)

/-! ## Tables -/

/-- The rounds of an execution: it is suspended, fails, or returns a reader. -/
theorem step_sqlExecuting_cases (setting : Setting) (token : Bool) (columns : List String)
    (connection : String) (delay : Nat) (reply : Reply) :
    (∃ delay', step setting token (.sqlExecuting columns connection delay reply)
      = ⟨some .pending, .sqlExecuting columns connection delay' reply, []⟩) ∨
    (∃ e, step setting token (.sqlExecuting columns connection delay reply)
      = ⟨some (.error e), .closed, []⟩) ∨
    (∃ rows, step setting token (.sqlExecuting columns connection delay reply)
      = ⟨none, .sqlReading columns connection rows, []⟩) := by
  rcases delay with _ | delay
  · cases reply with
    | never => exact .inl ⟨0, rfl⟩
    | fails e => exact .inr (.inl ⟨e, rfl⟩)
    | reader rows => exact .inr (.inr ⟨rows, rfl⟩)
  · exact .inl ⟨delay, rfl⟩

/-- A table closes with its last answer, or goes on reading. -/
theorem sqlNext_cases (columns : List String) (connection : String) (rest : List (Item Row)) :
    (∃ a : Answer, a.isLast = true ∧ sqlNext columns connection rest
      = ⟨some a, .closed, [.polled (.reader connection)]⟩) ∨
    (∃ (a : Answer) (more : List (Item Row)), a.isLast = false ∧ sqlNext columns connection rest
      = ⟨some a, .sqlReading columns connection more, [.polled (.reader connection)]⟩) := by
  rcases rest with _ | ⟨row | e | _, rest⟩
  · exact .inl ⟨.finished, rfl, rfl⟩
  · cases hrow : labelled columns row with
    | ok v => exact .inr ⟨.row v, rest, rfl, by simp only [sqlNext, hrow]⟩
    | error e => exact .inl ⟨.error e, rfl, by simp only [sqlNext, hrow]⟩
  · exact .inl ⟨.error e, rfl, rfl⟩
  · exact .inr ⟨.pending, rest, rfl, rfl⟩

/-! ## Closing -/

/-- An operator has closed if this is the last answer, and otherwise goes on. -/
def closesWithLast (answer : Option Answer) (next : Stream) : Prop :=
  if answer.any Answer.isLast then next = .closed else next.isLocal = true

theorem closesWithLast_closed {a : Answer} (h : a.isLast = true) :
    closesWithLast (some a) .closed := by
  rw [closesWithLast, Option.any_some, if_pos h]

theorem closesWithLast_isLocal {answer : Option Answer} {next : Stream}
    (h : answer.any Answer.isLast = false) (hnext : next.isLocal = true) :
    closesWithLast answer next := by
  rw [closesWithLast, h, if_neg Bool.false_ne_true]
  exact hnext

theorem closesWithLast_filterNext (c : CompiledExpr) (r : Round Stream) :
    closesWithLast (filterNext c r).answer (filterNext c r).next := by
  rcases filterNext_cases c r with ⟨a, ha, h⟩ | ⟨answer, hanswer, h⟩
  · rw [h]
    exact closesWithLast_closed ha
  · rw [h]
    exact closesWithLast_isLocal hanswer rfl

theorem closesWithLast_projectNext (c : CompiledExpr) (r : Round Stream) :
    closesWithLast (projectNext c r).answer (projectNext c r).next := by
  rcases projectNext_cases c r with ⟨a, ha, h⟩ | ⟨answer, hanswer, h⟩
  · rw [h]
    exact closesWithLast_closed ha
  · rw [h]
    exact closesWithLast_isLocal hanswer rfl

theorem closesWithLast_joinOuterNext (inner : Query) (c d : CompiledExpr) (r : Round Stream) :
    closesWithLast (joinOuterNext inner c d r).answer (joinOuterNext inner c d r).next := by
  rcases joinOuterNext_cases inner c d r with ⟨a, ha, h⟩ | ⟨answer, hanswer, h⟩ | ⟨row, h⟩
  · rw [h]
    exact closesWithLast_closed ha
  · rw [h]
    exact closesWithLast_isLocal hanswer rfl
  · rw [h]
    exact closesWithLast_isLocal rfl rfl

theorem closesWithLast_joinInnerNext (inner : Query) (c d : CompiledExpr) (outer : Stream)
    (row : Value) (r : Round Stream) :
    closesWithLast (joinInnerNext inner c d outer row r).answer
      (joinInnerNext inner c d outer row r).next := by
  rcases joinInnerNext_cases inner c d outer row r with ⟨a, ha, h⟩ | ⟨answer, hanswer, h⟩ | h
  · rw [h]
    exact closesWithLast_closed ha
  · rw [h]
    exact closesWithLast_isLocal hanswer rfl
  · rw [h]
    exact closesWithLast_isLocal rfl rfl

/-- An operator looks at its token first. -/
theorem closesWithLast_unlessCancelled (token : Bool) (events : List Event) {r : Round Stream}
    (h : closesWithLast r.answer r.next) :
    closesWithLast (if token then ⟨some .finished, .closed, events⟩ else r : Round Stream).answer
      (if token then ⟨some .finished, .closed, events⟩ else r : Round Stream).next := by
  cases token with
  | true => rfl
  | false => exact h

theorem closesWithLast_step (setting : Setting) (token : Bool) {s : Stream}
    (h : s.isLocal = true) :
    closesWithLast (step setting token s).answer (step setting token s).next := by
  cases s with
  | filterIdle input p =>
      apply closesWithLast_unlessCancelled
      split <;> rfl
  | filterOpen c input =>
      exact closesWithLast_unlessCancelled _ _ (closesWithLast_filterNext c _)
  | projectIdle input e =>
      apply closesWithLast_unlessCancelled
      split <;> rfl
  | projectOpen c input =>
      exact closesWithLast_unlessCancelled _ _ (closesWithLast_projectNext c _)
  | joinIdle outer inner condition combine =>
      apply closesWithLast_unlessCancelled
      split <;> rfl
  | joinOuter inner c d outer =>
      exact closesWithLast_unlessCancelled _ _ (closesWithLast_joinOuterNext inner c d _)
  | joinInner inner c d outer row current =>
      exact closesWithLast_unlessCancelled _ _ (closesWithLast_joinInnerNext inner c d outer row _)
  | _ => cases h

theorem closesWithLast_poll (setting : Setting) (token : Bool) {s : Stream}
    (h : s.isLocal = true) :
    closesWithLast (some (poll setting token s).answer) (poll setting token s).next :=
  poll_ends (E := fun s => s = .closed) (P := fun s => s.isLocal = true)
    (fun g t _ hs => closesWithLast_step g t hs) setting token h

/-- After the end or an error, an operator only answers that it has ended. -/
theorem finished_of_isLast {occasions : List Occasion} {s : Stream} {before after : List Answer}
    {a : Answer} (h : s.isLocal = true)
    (ha : (s.pollAll occasions).answers = before ++ a :: after) (hlast : a.isLast = true) :
    ∀ b ∈ after, b = .finished := by
  induction occasions generalizing s before with
  | nil =>
      have hlength := congrArg List.length ha
      simp [pollAll] at hlength
  | cons o rest ih =>
      have hpoll := closesWithLast_poll o.setting o.cancelled h
      replace ha : (poll o.setting o.cancelled s).answer ::
          (pollAll rest (poll o.setting o.cancelled s).next).answers = before ++ a :: after := ha
      rw [closesWithLast, Option.any_some] at hpoll
      -- the answer in question is this one, or it comes later
      by_cases hfirst : (poll o.setting o.cancelled s).answer.isLast = true
      · -- the stream has closed already, so every answer from here on is the end
        rw [if_pos hfirst] at hpoll
        rw [hpoll, pollAll_closed] at ha
        intro b hb
        cases before with
        | nil =>
            rw [List.nil_append, List.cons.injEq] at ha
            rw [← ha.2] at hb
            exact List.eq_of_mem_replicate hb
        | cons c more =>
            rw [List.cons_append, List.cons.injEq] at ha
            have hrest : List.replicate rest.length Answer.finished = more ++ a :: after := ha.2
            have hmem : b ∈ List.replicate rest.length Answer.finished := by
              rw [hrest]
              simp [hb]
            exact List.eq_of_mem_replicate hmem
      · rw [if_neg hfirst] at hpoll
        cases before with
        | nil =>
            rw [List.nil_append, List.cons.injEq] at ha
            exact absurd (ha.1 ▸ hlast) hfirst
        | cons c more =>
            rw [List.cons_append, List.cons.injEq] at ha
            exact ih hpoll ha.2

end Stream

end RowQuery
