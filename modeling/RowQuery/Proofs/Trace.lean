import RowQuery.Proofs.Heredity
import RowQuery.Proofs.Listing

set_option autoImplicit false

/-! # Traces

The *trace* of a stream is the listing of everything that it still has to answer, its pauses
included, when the token is not cancelled. It is defined by recursion on the state of the stream,
without a round being taken; a filter, a projection and a join are loops over the traces of their
inputs. `trace_step` says that every round takes off the front of the trace what it answers, so a
run of polls reads the trace from front to back (`answers_pollAll`), whatever happens around the
stream between two polls.

This holds of the queries whose leaves all follow scripts (`Query.Replays`). The other two kinds of
leaf have no finite trace of their own: one never answers, and what a table answers depends on its
connection. Once its command has been executed, the stream of a table has one, unless the execution
never completes. -/

namespace RowQuery

/-! ## Traces of queries -/

/-- The combinations of one outer element with the elements of an inner enumeration. -/
def matchesOf (condition combine : CompiledExpr) (a : Value) (inner : Listing (Option Value)) :
    Listing (Option Value) :=
  inner.forEachReady (fun b => (Listing.combined condition combine a b).ready)

namespace Query

/-- The script that a source follows each time it is opened. -/
def script? : Query → Option (List (Item Value))
  | .values rows => some (rows.map .value)
  | .script _ items _ => some items
  | .failing e => some [.error e]
  | .counting _ input => script? input
  | .absorbing _ _ _ input => script? input
  | .declining _ input => script? input
  | _ => none

/-- All leaves of the query follow scripts. -/
def Replays : Query → Prop
  | .counting _ input => Replays input
  | .absorbing _ _ _ input => Replays input
  | .declining _ input => Replays input
  | .localFilter input _ => Replays input
  | .localProject input _ => Replays input
  | .localJoin outer inner _ _ => Replays outer ∧ Replays inner
  | .stalled => False
  | .sql _ => False
  | _ => True

/-- What an enumeration of the query has to answer. -/
def trace : Query → Listing (Option Value)
  | .values rows => .replay (rows.map .value)
  | .script _ items _ => .replay items
  | .failing e => .error e
  | .counting _ input => trace input
  | .absorbing _ _ _ input => trace input
  | .declining _ input => trace input
  | .localFilter input p =>
    .given (CompiledExpr.compile p 1) (fun c =>
      (trace input).forEachReady (fun v => (Listing.kept c v).ready))
  | .localProject input e =>
    .given (CompiledExpr.compile e 1) (fun c =>
      (trace input).forEachReady (fun v => (Listing.mapped c v).ready))
  | .localJoin outer inner condition combine =>
    .given (CompiledExpr.compile condition 2) (fun c =>
      .given (CompiledExpr.compile combine 2) (fun d =>
        (trace outer).forEachReady (fun a => matchesOf c d a (trace inner))))
  | .stalled => .finished
  | .sql _ => .finished

/-- A join needs both of its expressions before anything else. -/
theorem trace_localJoin (outer inner : Query) (condition combine : Expr) :
    (Query.localJoin outer inner condition combine).trace
      = .given (do
          let c ← CompiledExpr.compile condition 2
          let d ← CompiledExpr.compile combine 2
          return (c, d))
        (fun (c, d) => outer.trace.forEachReady (fun a => matchesOf c d a inner.trace)) := by
  rw [trace]
  cases CompiledExpr.compile condition 2 with
  | error e => rfl
  | ok c => cases CompiledExpr.compile combine 2 <;> rfl

/-- A source that follows a script has the trace of the script. -/
theorem trace_of_script? {q : Query} {items : List (Item Value)} (h : q.script? = some items) :
    q.Replays ∧ q.trace = .replay items := by
  induction q with
  | counting counter input ih => exact ih h
  | absorbing name supported refusal input ih => exact ih h
  | declining supported input ih => exact ih h
  | values rows | script name entries observes | failing e =>
      rw [script?, Option.some.injEq] at h
      subst h
      exact ⟨trivial, rfl⟩
  | _ => cases h

end Query

/-! ## Traces of streams -/

/-- The entry of a script of elements that an entry of a script of rows stands for. -/
def Item.labelled (columns : List String) : Item Row → Item Value
  | .value row =>
    match Stream.labelled columns row with
    | .ok v => .value v
    | .error e => .error e
  | .error e => .error e
  | .pending => .pending

namespace Reply

/-- The execution comes to an end. -/
def Completes : Reply → Prop
  | .never => False
  | _ => True

/-- What a table has to answer when its execution comes to this. -/
def trace (columns : List String) : Reply → Listing (Option Value)
  | .never => .finished
  | .fails e => .error e
  | .reader rows => .replay (rows.map (Item.labelled columns))

end Reply

namespace Stream

/-- All leaves of the stream follow scripts, those it has not opened yet included. -/
def Replays : Stream → Prop
  | .counting _ inner => Replays inner
  | .cancellable inner => Replays inner
  | .filterIdle input _ => input.Replays
  | .filterOpen _ input => Replays input
  | .projectIdle input _ => input.Replays
  | .projectOpen _ input => Replays input
  | .joinIdle outer inner _ _ => outer.Replays ∧ inner.Replays
  | .joinOuter inner _ _ outer => Replays outer ∧ inner.Replays
  | .joinInner inner _ _ outer _ current => Replays outer ∧ Replays current ∧ inner.Replays
  | .stalled => False
  | .sqlIdle _ => False
  | .sqlExecuting _ _ _ reply => reply.Completes
  | _ => True

/-- What the stream still has to answer. -/
def trace : Stream → Listing (Option Value)
  | .values rest => .replay (rest.map .value)
  | .script _ rest => .replay rest
  | .failing none => .finished
  | .failing (some e) => .error e
  | .counting _ inner => trace inner
  | .cancellable inner => trace inner
  | .filterIdle input p => (Query.localFilter input p).trace
  | .filterOpen c input => (trace input).forEachReady (fun v => (Listing.kept c v).ready)
  | .projectIdle input e => (Query.localProject input e).trace
  | .projectOpen c input => (trace input).forEachReady (fun v => (Listing.mapped c v).ready)
  | .joinIdle outer inner condition combine =>
    (Query.localJoin outer inner condition combine).trace
  | .joinOuter inner c d outer => (trace outer).forEachReady (fun a => matchesOf c d a inner.trace)
  | .joinInner inner c d outer row current =>
    (matchesOf c d row (trace current)).append
      ((trace outer).forEachReady (fun a => matchesOf c d a inner.trace))
  | .sqlExecuting columns _ delay reply => .delayed delay (reply.trace columns)
  | .sqlReading columns _ rest => .replay (rest.map (Item.labelled columns))
  | _ => .finished

/-- Opening a stream takes nothing off the trace. -/
theorem trace_stream (q : Query) : q.stream.trace = q.trace := by
  induction q with
  | script name items observesToken => cases observesToken <;> rfl
  | counting counter input ih => exact ih
  | absorbing name supported refusal input ih => exact ih
  | declining supported input ih => exact ih
  | _ => rfl

theorem replays_stream {q : Query} (h : q.Replays) : q.stream.Replays := by
  induction q with
  | script name items observesToken => cases observesToken <;> trivial
  | counting counter input ih => exact ih h
  | absorbing name supported refusal input ih => exact ih h
  | declining supported input ih => exact ih h
  | localFilter input p => exact h
  | localProject input e => exact h
  | localJoin outer inner condition combine => exact h
  | stalled => exact h
  | sql q => exact h
  | _ => trivial

/-- A trace with the answer of a round put back in front. -/
def before (answer : Option Answer) (rest : Listing (Option Value)) : Listing (Option Value) :=
  match answer with
  | none => rest
  | some .pending => .item none rest
  | some (.row v) => .item (some v) rest
  | some (.error e) => .error e
  | some .finished => .finished

/-- What a stream had to answer before a round. -/
def traceBefore (r : Round Stream) : Listing (Option Value) := before r.answer r.next.trace

/-! ## Rounds of the operators -/

theorem traceBefore_filterNext (c : CompiledExpr) (r : Round Stream) :
    traceBefore (filterNext c r)
      = (traceBefore r).forEachReady (fun v => (Listing.kept c v).ready) := by
  obtain ⟨answer, next, events⟩ := r
  rcases answer with _ | v | e | _ | _
  · rfl
  · show _ = ((Listing.kept c v).ready).append _
    simp only [filterNext, Listing.kept]
    cases c.evalPredicate [v] with
    | error e => rfl
    | ok holds => cases holds <;> rfl
  · rfl
  · rfl
  · rfl

theorem traceBefore_projectNext (c : CompiledExpr) (r : Round Stream) :
    traceBefore (projectNext c r)
      = (traceBefore r).forEachReady (fun v => (Listing.mapped c v).ready) := by
  obtain ⟨answer, next, events⟩ := r
  rcases answer with _ | v | e | _ | _
  · rfl
  · show _ = ((Listing.mapped c v).ready).append _
    simp only [projectNext, Listing.mapped]
    cases c.eval [v] <;> rfl
  · rfl
  · rfl
  · rfl

/-- An outer element opens a fresh enumeration of the inner query in its place. -/
theorem traceBefore_joinOuterNext (inner : Query) (c d : CompiledExpr) (r : Round Stream) :
    traceBefore (joinOuterNext inner c d r)
      = (traceBefore r).forEachReady (fun a => matchesOf c d a inner.trace) := by
  obtain ⟨answer, next, events⟩ := r
  rcases answer with _ | v | e | _ | _
  · rfl
  · -- the stream that is opened has all of the inner trace ahead of it
    show (matchesOf c d v inner.stream.trace).append _ = (matchesOf c d v inner.trace).append _
    rw [trace_stream]
  · rfl
  · rfl
  · rfl

/-- While a join goes through inner elements, the matches with the outer elements to come stand
behind those with this one. -/
theorem traceBefore_joinInnerNext (inner : Query) (c d : CompiledExpr) (outer : Stream)
    (row : Value) (r : Round Stream) :
    traceBefore (joinInnerNext inner c d outer row r)
      = (matchesOf c d row (traceBefore r)).append
          (outer.trace.forEachReady (fun a => matchesOf c d a inner.trace)) := by
  obtain ⟨answer, next, events⟩ := r
  rcases answer with _ | v | e | _ | _
  · rfl
  · -- an inner element stands for its combination, in front of the inner elements to come
    show _ = (((Listing.combined c d row v).ready).append _).append _
    rw [Listing.append_assoc]
    simp only [joinInnerNext, matched, Listing.combined]
    cases c.evalPredicate [row, v] with
    | error e => rfl
    | ok holds =>
        cases holds with
        | false => rfl
        | true => cases d.eval [row, v] <;> rfl
  · rfl
  · rfl
  · rfl

/-- The adapter passes on what is inside. -/
theorem traceBefore_cancellable (release : Stream → List Event) (inner : Stream)
    (r : Round Stream) :
    traceBefore ((Cancellable.around release false inner (fun _ => r)).map adapter)
      = traceBefore r := by
  obtain ⟨answer, next, events⟩ := r
  rcases answer with _ | v | e | _ | _ <;> rfl

/-- A reader goes through its script entry by entry. -/
theorem traceBefore_sqlNext (columns : List String) (connection : String) (rest : List (Item Row)) :
    traceBefore (sqlNext columns connection rest)
      = .replay (rest.map (Item.labelled columns)) := by
  rcases rest with _ | ⟨row | e | _, rest⟩
  · rfl
  · show _ = Listing.replay (Item.labelled columns (.value row) :: _)
    simp only [sqlNext, Item.labelled]
    cases labelled columns row <;> rfl
  · rfl
  · rfl

/-! ## Leaves that follow scripts -/

theorem hereditary_replays : Hereditary Stream.Replays Query.Replays where
  stream _ := replays_stream
  values _ := trivial
  script _ _ := trivial
  failing _ := trivial
  closed := trivial
  counting _ _ := Iff.rfl
  cancellable _ := Iff.rfl
  filterIdle _ _ := Iff.rfl
  filterOpen _ _ := Iff.rfl
  projectIdle _ _ := Iff.rfl
  projectOpen _ _ := Iff.rfl
  joinIdle _ _ _ _ := Iff.rfl
  joinOuter _ _ _ _ := Iff.rfl
  joinInner _ _ _ _ _ _ := Iff.rfl
  sqlStart _ _ h := absurd h id
  sqlDelayed _ _ _ _ _ h := h
  sqlExecuted _ _ _ _ _ _ := trivial
  sqlReading _ _ _ _ _ := trivial

/-- A round opens streams of the same query only, so the leaves stay what they are. -/
theorem replays_step (setting : Setting) (token : Bool) {s : Stream} (h : s.Replays) :
    (step setting token s).next.Replays :=
  hereditary_replays.step setting token h

/-! ## Rounds, polls and runs -/

/-- A round reads the front of the trace. -/
theorem trace_step (setting : Setting) {s : Stream} (h : s.Replays) :
    traceBefore (step setting false s) = s.trace := by
  induction s with
  | values rest => cases rest <;> rfl
  | script name rest => rcases rest with _ | ⟨_ | _ | _, rest⟩ <;> rfl
  | failing e => cases e <;> rfl
  | counting counter inner ih => exact ih h
  | cancellable inner ih =>
      rw [step, traceBefore_cancellable]
      exact ih h
  | filterIdle input p =>
      have hc := setting.compile_fst p 1
      rw [step, if_neg Bool.false_ne_true]
      rcases hs : setting.compile p 1 with ⟨e | c, events⟩
      · rw [hs] at hc
        simp only [trace, Query.trace, ← hc]
        rfl
      · rw [hs] at hc
        simp only [trace, Query.trace, ← hc, Listing.given_ok, ← trace_stream]
        rfl
  | filterOpen c input ih =>
      rw [step, if_neg Bool.false_ne_true, traceBefore_filterNext, ih h]
      rfl
  | projectIdle input e =>
      have hc := setting.compile_fst e 1
      rw [step, if_neg Bool.false_ne_true]
      rcases hs : setting.compile e 1 with ⟨err | c, events⟩
      · rw [hs] at hc
        simp only [trace, Query.trace, ← hc]
        rfl
      · rw [hs] at hc
        simp only [trace, Query.trace, ← hc, Listing.given_ok, ← trace_stream]
        rfl
  | projectOpen c input ih =>
      rw [step, if_neg Bool.false_ne_true, traceBefore_projectNext, ih h]
      rfl
  | joinIdle outer inner condition combine =>
      have hc := setting.compileBoth_fst condition combine 2
      rw [step, if_neg Bool.false_ne_true]
      show _ = (Query.localJoin outer inner condition combine).trace
      rw [Query.trace_localJoin, ← hc]
      rcases hs : setting.compileBoth condition combine 2 with ⟨e | ⟨c, d⟩, events⟩
      · rfl
      · rw [← trace_stream outer]
        rfl
  | joinOuter inner c d outer ih =>
      rw [step, if_neg Bool.false_ne_true, traceBefore_joinOuterNext, ih h.1]
      rfl
  | joinInner inner c d outer row current ihOuter ihCurrent =>
      rw [step, if_neg Bool.false_ne_true, traceBefore_joinInnerNext, ihCurrent h.2.1]
      rfl
  | sqlExecuting columns connection delay reply =>
      rcases delay with _ | delay
      · cases reply with
        | never => exact absurd h id
        | fails e => rfl
        | reader rows => rfl
      · rfl
  | sqlReading columns connection rest => exact traceBefore_sqlNext columns connection rest
  | closed => rfl
  | _ => exact absurd h id

/-- So does a poll, which answers with it. -/
theorem trace_poll (setting : Setting) {s : Stream} (h : s.Replays) :
    before (some (poll setting false s).answer) (poll setting false s).next.trace = s.trace := by
  fun_induction poll setting false s with
  | case1 setting s answer next events hs =>
      have hstep := trace_step setting h
      rwa [hs] at hstep
  | case2 setting s next events hs rest ih =>
      have hstep := trace_step setting h
      have hnext := replays_step setting false h
      -- a round without an answer takes nothing off the trace
      rw [hs] at hstep hnext
      rw [← hstep]
      exact ih hnext

end Stream

/-! ## Answers -/

/-- The answers that a trace stands for. -/
def Listing.answersWithPauses : Listing (Option Value) → List Answer
  | .finished => [.finished]
  | .error e => [.error e]
  | .item none rest => .pending :: answersWithPauses rest
  | .item (some v) rest => .row v :: answersWithPauses rest

/-- The answers up to and including the first error or end. -/
def upToLast : List Answer → List Answer
  | [] => []
  | a :: rest => if a.isLast then [a] else a :: upToLast rest

/-- Putting an answer in front of a trace puts it in front of the answers, unless nothing can come
after it. -/
theorem Stream.answersWithPauses_before (a : Answer) (rest : Listing (Option Value)) :
    (before (some a) rest).answersWithPauses
      = if a.isLast then [a] else a :: rest.answersWithPauses := by
  cases a <;> rfl

/-- A run of polls reads as much of the trace as it takes polls. -/
theorem Stream.upToLast_pollAll (settings : List Setting) {s : Stream} (h : s.Replays) :
    upToLast (s.pollAll (settings.map Occasion.live)).answers
      = s.trace.answersWithPauses.take settings.length := by
  induction settings generalizing s with
  | nil => rfl
  | cons setting rest ih =>
      have htrace := trace_poll setting h
      have hnext := poll_keeps (P := Stream.Replays) (fun g t u hu => replays_step g t hu)
        setting false s h
      show upToLast ((poll setting false s).answer :: _) = _
      rw [upToLast, ← htrace, answersWithPauses_before, List.length_cons]
      by_cases hlast : (poll setting false s).answer.isLast = true
      · rw [if_pos hlast, if_pos hlast, List.take_succ_cons, List.take_nil]
      · rw [if_neg hlast, if_neg hlast, List.take_succ_cons, ← ih hnext]
        rfl

/-- The stream of an operator answers with its trace, and then with the end. -/
theorem Stream.answers_pollAll (settings : List Setting) {s : Stream} (h : s.Replays)
    (hlocal : s.isLocal = true ∨ s = .closed) :
    (s.pollAll (settings.map Occasion.live)).answers
      = (s.trace.answersWithPauses ++ List.replicate settings.length Answer.finished).take
          settings.length := by
  induction settings generalizing s with
  | nil => rfl
  | cons setting rest ih =>
      rcases hlocal with hlocal | rfl
      · have htrace := trace_poll setting h
        have hnext := poll_keeps (P := Stream.Replays) (fun g t u hu => replays_step g t hu)
          setting false s h
        have hpoll := closesWithLast_poll setting false hlocal
        rw [closesWithLast, Option.any_some] at hpoll
        show (poll setting false s).answer :: (pollAll _ (poll setting false s).next).answers = _
        rw [← htrace, answersWithPauses_before, List.length_cons]
        by_cases hlast : (poll setting false s).answer.isLast = true
        · rw [if_pos hlast] at hpoll ⊢
          rw [hpoll, pollAll_closed, List.length_map, List.cons_append, List.nil_append,
            List.take_succ_cons]
          simp
        · rw [if_neg hlast] at hpoll ⊢
          rw [ih hnext (.inl hpoll), List.cons_append, List.take_succ_cons, List.take_append,
            List.take_append, List.take_replicate, List.take_replicate]
          congr 3
          omega
      · rw [pollAll_closed, List.length_map]
        show List.replicate _ _ = (Answer.finished :: List.replicate _ _).take _
        rw [← List.replicate_succ, List.take_replicate]
        congr 1
        omega

end RowQuery
