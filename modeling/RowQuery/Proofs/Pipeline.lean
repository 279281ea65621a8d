import RowQuery.Proofs.Trace

set_option autoImplicit false

/-! # Pipelines

A *pipeline* is a query put together with `Query.filter`, `Query.project` and `Query.innerJoin`, to
any depth, over sources that follow a script and take over no operator. Its meaning is a listing
(`Pipeline.listing`), said with loops over the listings of its inputs: no state, no polling, no
pauses. `answers_follow_listing` says that the streams of the pipeline answer with that listing,
however their leaves pause and whatever happens around them between two polls.

The way there has two parts. A run of polls reads the trace of the query (`Query.trace`), and the
trace without its pauses is the listing (`settled_trace`).
-/

namespace RowQuery

/-- A source that follows a script each time it is opened, and refuses every operator that it
advertises. -/
structure ScriptedSource where
  query : Query
  script : List (Item Value)
  follows : query.script? = some script
  refuses : ∀ op : Operator, query.supports op.kind = true → ∃ e, query.pushDown op = .error e

/-- Values held in memory. -/
def ScriptedSource.ofValues (rows : List Value) : ScriptedSource where
  query := .values rows
  script := rows.map .value
  follows := rfl
  refuses := by
    intro op h
    cases h

/-- A source with a script of its own. -/
def ScriptedSource.ofScript (name : String) (items : List (Item Value)) (observesToken : Bool) :
    ScriptedSource where
  query := .script name items observesToken
  script := items
  follows := rfl
  refuses := by
    intro op h
    cases h

/-- How a query is put together from scripted sources. -/
inductive Pipeline where
  | source (s : ScriptedSource)
  | counting (counter : Nat) (input : Pipeline)
  | filter (input : Pipeline) (predicate : Expr)
  | project (input : Pipeline) (projection : Expr)
  | innerJoin (outer inner : Pipeline) (condition combine : Expr)

/-- The answers that a listing stands for. -/
def Listing.answers : Listing Value → List Answer
  | .finished => [.finished]
  | .error e => [.error e]
  | .item v rest => .row v :: answers rest

/-- The answers that say something. -/
def withoutPending (answers : List Answer) : List Answer := answers.filter (· ≠ .pending)

/-- The answers of a new stream of the query, one for each setting, when it is never cancelled. -/
def Query.answersUnder (q : Query) (settings : List Setting) : List Answer :=
  (q.stream.pollAll (settings.map Occasion.live)).answers

namespace Pipeline

/-- The query, as its operators build it. -/
def query : Pipeline → Query
  | .source s => s.query
  | .counting counter input => .counting counter input.query
  | .filter input p => input.query.filter p
  | .project input e => input.query.project e
  | .innerJoin outer inner condition combine =>
    outer.query.innerJoin inner.query condition combine

/-- What the pipeline comes to. A filter keeps the elements on which its predicate holds, a
projection maps them, a join goes through the inner listing anew for every outer element; the first
error, in this order, is the end. The expressions of an operator are compiled before all else, the
condition of a join before its combination. -/
def listing : Pipeline → Listing Value
  | .source s => .ofScript s.script
  | .counting _ input => input.listing
  | .filter input p =>
    .given (CompiledExpr.compile p 1) (fun c => input.listing.forEach (Listing.kept c))
  | .project input e =>
    .given (CompiledExpr.compile e 1) (fun c => input.listing.forEach (Listing.mapped c))
  | .innerJoin outer inner condition combine =>
    .given (CompiledExpr.compile condition 2) (fun c =>
      .given (CompiledExpr.compile combine 2) (fun d =>
        outer.listing.forEach (fun a => inner.listing.forEach (Listing.combined c d a))))

/-- Whether an operator was applied last. -/
def isOperator : Pipeline → Bool
  | .filter .. => true
  | .project .. => true
  | .innerJoin .. => true
  | _ => false

/-- Why an evaluation failed, if it did. -/
def failureOf {ρ : Type} : Except EvalError ρ → Option EvalError
  | .error e => some e
  | .ok _ => none

/-- Why the operator that was applied last does not compile, if it does not. -/
def compileError? : Pipeline → Option EvalError
  | .filter _ p => failureOf (CompiledExpr.compile p 1)
  | .project _ e => failureOf (CompiledExpr.compile e 1)
  | .innerJoin _ _ condition combine =>
    failureOf (do
      let c ← CompiledExpr.compile condition 2
      let d ← CompiledExpr.compile combine 2
      return (c, d))
  | _ => none

theorem failureOf_eq_some {ρ : Type} {result : Except EvalError ρ} {e : EvalError} :
    failureOf result = some e ↔ result = .error e := by
  cases result <;> simp [failureOf]

/-! ## Every operator is carried out here -/

/-- An operator that would be refused is carried out here. -/
theorem apply_of_refuses {q : Query} {op : Operator}
    (h : q.supports op.kind = true → ∃ e, q.pushDown op = .error e) :
    q.apply op = q.applyLocally op := by
  by_cases hs : q.supports op.kind = true
  · obtain ⟨e, he⟩ := h hs
    rw [Query.apply, Query.dispatch_of_supports hs, Query.pushDownOrLocal_of_error he]
  · exact Query.apply_of_not_supports (Bool.eq_false_iff.mpr hs)

/-- Below an operator that is carried out here stands a query that advertises nothing. -/
theorem apply_apply {q : Query} {before : Operator} (h : q.apply before = q.applyLocally before)
    (op : Operator) : (q.apply before).apply op = (q.apply before).applyLocally op := by
  rw [h]
  exact Query.apply_of_not_supports (Query.supports_applyLocally q before op.kind)

theorem apply_query (t : Pipeline) (op : Operator) :
    t.query.apply op = t.query.applyLocally op := by
  induction t generalizing op with
  -- an operator is always applied to the outer input, never to the inner one
  | source s => exact apply_of_refuses (s.refuses op)
  | counting counter input _ => exact Query.apply_of_not_supports rfl
  | filter input p ih => exact apply_apply (ih _) op
  | project input e ih => exact apply_apply (ih _) op
  | innerJoin outer inner condition combine ihOuter _ => exact apply_apply (ihOuter _) op

@[simp] theorem query_filter (t : Pipeline) (p : Expr) :
    (Pipeline.filter t p).query = .localFilter t.query p := t.apply_query (.filter p)

@[simp] theorem query_project (t : Pipeline) (e : Expr) :
    (Pipeline.project t e).query = .localProject t.query e := t.apply_query (.project e)

@[simp] theorem query_innerJoin (t u : Pipeline) (condition combine : Expr) :
    (Pipeline.innerJoin t u condition combine).query
      = .localJoin t.query u.query condition combine :=
  t.apply_query (.innerJoin u.query condition combine)

/-! ## The trace of a pipeline -/

theorem replays_query (t : Pipeline) : t.query.Replays := by
  induction t with
  | source s => exact (Query.trace_of_script? s.follows).1
  | counting counter input ih => exact ih
  | filter input p ih =>
      rw [query_filter]
      exact ih
  | project input e ih =>
      rw [query_project]
      exact ih
  | innerJoin outer inner condition combine ihOuter ihInner =>
      rw [query_innerJoin]
      exact ⟨ihOuter, ihInner⟩

/-- Without its pauses, the trace of a pipeline is its listing. -/
theorem settled_trace (t : Pipeline) : t.query.trace.settled = t.listing := by
  induction t with
  | source s =>
      rw [query, (Query.trace_of_script? s.follows).2, Listing.settled_replay]
      rfl
  | counting counter input ih => exact ih
  | filter input p ih =>
      simp only [query_filter, Query.trace, Listing.settled_given, Listing.settled_forEachReady,
        Listing.settled_ready, ih, listing]
  | project input e ih =>
      simp only [query_project, Query.trace, Listing.settled_given, Listing.settled_forEachReady,
        Listing.settled_ready, ih, listing]
  | innerJoin outer inner condition combine ihOuter ihInner =>
      simp only [query_innerJoin, Query.trace, matchesOf, Listing.settled_given,
        Listing.settled_forEachReady, Listing.settled_ready, ihOuter, ihInner, listing]

theorem isLocal_stream_query {t : Pipeline} (h : t.isOperator = true) :
    t.query.stream.isLocal = true := by
  cases t with
  | filter input p => rw [query_filter]; rfl
  | project input e => rw [query_project]; rfl
  | innerJoin outer inner condition combine => rw [query_innerJoin]; rfl
  | _ => cases h

/-! ## Answers without pauses -/

theorem withoutPending_answersWithPauses (l : Listing (Option Value)) :
    withoutPending l.answersWithPauses = l.settled.answers := by
  induction l with
  | finished => rfl
  | error e => rfl
  | item a rest ih =>
      cases a with
      | none => exact ih
      | some v =>
          show Answer.row v :: withoutPending rest.answersWithPauses = _
          rw [ih]
          rfl

/-- A pause is never the last answer, so it does not matter when the pauses are taken out. -/
theorem upToLast_withoutPending (answers : List Answer) :
    upToLast (withoutPending answers) = withoutPending (upToLast answers) := by
  induction answers with
  | nil => rfl
  | cons a rest ih =>
      cases a with
      | row v =>
          show Answer.row v :: upToLast (withoutPending rest) = _
          rw [ih]
          rfl
      | pending => exact ih
      | error e => rfl
      | finished => rfl

/-- What the answers of a pipeline say, up to the first error or end, is as much of its listing as
the polls came to. -/
theorem results_eq (t : Pipeline) (settings : List Setting) :
    upToLast (withoutPending (t.query.answersUnder settings))
      = withoutPending (t.query.trace.answersWithPauses.take settings.length) := by
  have hs : t.query.stream.Replays := Stream.replays_stream t.replays_query
  have hrun : upToLast (t.query.answersUnder settings)
      = t.query.stream.trace.answersWithPauses.take settings.length :=
    Stream.upToLast_pollAll settings hs
  calc upToLast (withoutPending (t.query.answersUnder settings))
      = withoutPending (upToLast (t.query.answersUnder settings)) := upToLast_withoutPending _
    _ = withoutPending (t.query.stream.trace.answersWithPauses.take settings.length) := by
        rw [hrun]
    _ = withoutPending (t.query.trace.answersWithPauses.take settings.length) := by
        rw [Stream.trace_stream]

/-! ## Compile errors -/

/-- Where an operator does not compile, that is its listing. -/
theorem listing_of_compileError? {t : Pipeline} {e : EvalError} (h : t.compileError? = some e) :
    t.listing = .error (.evaluation e) := by
  cases t with
  | filter input p => rw [listing, failureOf_eq_some.mp h, Listing.given_error]
  | project input err => rw [listing, failureOf_eq_some.mp h, Listing.given_error]
  | innerJoin outer inner condition combine =>
      have hboth := failureOf_eq_some.mp h
      rw [listing]
      -- the condition is compiled first, so its error comes first
      cases hc : CompiledExpr.compile condition 2 with
      | error err =>
          rw [hc] at hboth
          cases hboth
          rfl
      | ok c =>
          rw [Listing.given_ok]
          cases hd : CompiledExpr.compile combine 2 with
          | error err =>
              rw [hc, hd] at hboth
              cases hboth
              rfl
          | ok d =>
              rw [hc, hd] at hboth
              cases hboth
  | _ => cases h

/-- Its first poll finds that out and does nothing else: no input is opened. -/
theorem compiled_of_compileError? {t : Pipeline} {e : EvalError} (h : t.compileError? = some e)
    (setting : Setting) :
    ∀ event ∈ (Stream.poll setting false t.query.stream).events,
      ∃ cell, event = .compiled cell := by
  intro event
  cases t with
  | filter input p =>
      have hs := setting.compile_of_error (failureOf_eq_some.mp h)
      have hstep : Stream.step setting false (.filterIdle input.query p)
          = ⟨some (.error (.evaluation e)), .closed, (setting.compile p 1).2⟩ := by
        rw [Stream.step, if_neg Bool.false_ne_true, hs]
      rw [query_filter, Query.stream, Stream.poll_of_step_some hstep]
      exact Setting.compiled_of_mem_compile
  | project input err =>
      have hs := setting.compile_of_error (failureOf_eq_some.mp h)
      have hstep : Stream.step setting false (.projectIdle input.query err)
          = ⟨some (.error (.evaluation e)), .closed, (setting.compile err 1).2⟩ := by
        rw [Stream.step, if_neg Bool.false_ne_true, hs]
      rw [query_project, Query.stream, Stream.poll_of_step_some hstep]
      exact Setting.compiled_of_mem_compile
  | innerJoin outer inner condition combine =>
      have hs := setting.compileBoth_of_error (failureOf_eq_some.mp h)
      have hstep : Stream.step setting false
            (.joinIdle outer.query inner.query condition combine)
          = ⟨some (.error (.evaluation e)), .closed,
              (setting.compileBoth condition combine 2).2⟩ := by
        rw [Stream.step, if_neg Bool.false_ne_true, hs]
      rw [query_innerJoin, Query.stream, Stream.poll_of_step_some hstep]
      exact Setting.compiled_of_mem_compileBoth
  | _ => cases h

/-! ## The answers of a pipeline -/

/-- **A pipeline answers with its listing.** With the pauses left out, and up to the first error or
end, any number of polls gives a part of the listing from its front, and enough polls give all of
it. An operator answers nothing after its first error but that it has ended; where it does not
compile, that is its first answer and none of its inputs is opened. -/
theorem answers_follow_listing (t : Pipeline) :
    (∃ enough : Nat, ∀ settings : List Setting,
      upToLast (withoutPending (t.query.answersUnder settings)) <+: t.listing.answers ∧
      (enough ≤ settings.length →
        upToLast (withoutPending (t.query.answersUnder settings)) = t.listing.answers)) ∧
    (t.isOperator = true → ∀ (settings : List Setting) (before after : List Answer) (a : Answer),
      t.query.answersUnder settings = before ++ a :: after → a.isLast = true →
      ∀ b ∈ after, b = .finished) ∧
    (∀ e : EvalError, t.compileError? = some e →
      t.listing = .error (.evaluation e) ∧
      t.query.openEvents = [.opened t.query] ∧
      ∀ setting : Setting, ∀ event ∈ (Stream.poll setting false t.query.stream).events,
        ∃ cell, event = .compiled cell) := by
  have hall : withoutPending t.query.trace.answersWithPauses = t.listing.answers := by
    rw [withoutPending_answersWithPauses, settled_trace]
  -- as many polls as the trace has answers, pauses included, read all of it
  refine ⟨⟨t.query.trace.answersWithPauses.length, ?_⟩, ?_, ?_⟩
  · intro settings
    rw [results_eq, ← hall]
    constructor
    · exact (List.take_prefix _ _).filter _
    · intro henough
      rw [List.take_of_length_le henough]
  · intro hop settings before after a ha hlast
    exact Stream.finished_of_isLast (isLocal_stream_query hop) ha hlast
  · intro e he
    refine ⟨listing_of_compileError? he, ?_, compiled_of_compileError? he⟩
    cases t with
    | filter input p => rw [query_filter]; rfl
    | project input err => rw [query_project]; rfl
    | innerJoin outer inner condition combine => rw [query_innerJoin]; rfl
    | _ => cases he

/-- A pause of the inner source does not show, and the inner source starts anew for each outer
element. -/
example : (Pipeline.innerJoin (.source (.ofValues [.int64 1, .int64 2]))
    (.source (.ofScript "s" [.pending, .value (.int64 2), .value (.int64 3)] true))
    (.binary .lt (.argument 0) (.argument 1)) (.tuple [.argument 0, .argument 1])).listing
      = .item (.tuple [.int64 1, .int64 2]) (.item (.tuple [.int64 1, .int64 3])
          (.item (.tuple [.int64 2, .int64 3]) .finished)) := by
  rfl

end Pipeline

end RowQuery
