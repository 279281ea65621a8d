import RowQuery.Proofs.Dispatch
import RowQuery.Proofs.Errors
import RowQuery.Proofs.Surroundings

set_option autoImplicit false

/-! # Refused operators

A source may advertise a kind of operator and still refuse the operators of that kind that it is
handed. The operator is then carried out here, as it would be if the source had advertised nothing,
and the refusal is forgotten. So it cannot be told from a query what its sources have refused.

That is said here of trees of operators in which any number of leaves refuse (`QueryTree`). Such a
tree gives the query that it would give with leaves of the same elements that advertise nothing, but
for these leaves (`QueryTree.mirrors_plain`). Queries that mirror each other in this way have
streams that do, round by round (`Stream.mirrors_step`), so the streams answer the same on every
schedule.
-/

namespace RowQuery

/-! ## Sources that refuse -/

namespace SourceFamily

variable {σ ω : Type} {S : SourceFamily σ ω}

/-- The source refuses every operator that it advertises, each in its own way. -/
def Refuses (S : SourceFamily σ ω) (q : σ) : Prop :=
  ∀ op, S.supports q (S.kind op) = true → ∃ e, S.pushDown q op = .error e

theorem Refuses.apply {q : σ} (h : S.Refuses q) (op : ω) : S.apply q op = S.applyLocally q op := by
  by_cases hsupports : S.supports q (S.kind op) = true
  · obtain ⟨e, he⟩ := h op hsupports
    rw [SourceFamily.apply, dispatch_of_error hsupports he]
  · exact apply_of_not_supports (Bool.eq_false_iff.mpr hsupports)

/-- A source that refuses is handed the operator that is applied to it, if it advertises the kind,
and none of the operators on top of that one. All of them are carried out here. -/
theorem Refuses.dispatchAll {q : σ} (h : S.Refuses q) (ops : List ω) :
    S.dispatchAll q ops = ⟨ops.foldl S.applyLocally q,
      ((ops.take 1).filter (fun op => S.supports q (S.kind op))).map (q, ·)⟩ := by
  cases ops with
  | nil => rfl
  | cons op rest =>
      obtain ⟨hcalls, happly⟩ := calls_of_silent (S.supports_applyLocally q op) rest
      have hvalue : S.applyAll q (op :: rest) = (op :: rest).foldl S.applyLocally q := by
        rw [applyAll_cons, h.apply, happly, List.foldl_cons]
      have hhanded : S.calls q (op :: rest)
          = (([op] : List ω).filter (fun op => S.supports q (S.kind op))).map (q, ·) := by
        rw [calls_cons, h.apply, hcalls, List.append_nil, calls_dispatch]
        by_cases hsupports : S.supports q (S.kind op) = true
        · simp [hsupports]
        · simp [hsupports]
      rw [List.take_succ_cons, List.take_zero, ← hvalue, ← hhanded]
      rfl

end SourceFamily

/-- A source with errors of its own refuses with them. -/
theorem Query.refuses_absorbing (name : String) (supported : List PushDown)
    (refusal : PushDown → List Expr → QueryError) (input : Query) :
    Query.family.Refuses (.absorbing name supported (some refusal) input) :=
  fun op _ => ⟨refusal op.kind op.exprs, rfl⟩

/-- A source that has no way to absorb operators refuses in the words that are common to all. -/
theorem Query.refuses_declining (supported : List PushDown) (input : Query) :
    Query.family.Refuses (.declining supported input) :=
  fun op _ => ⟨.unsupportedPushDown op.kind.name, rfl⟩

/-- A source that refuses every operator that it advertises, and one with the same elements that
advertises nothing. -/
structure RefusingSource where
  query : Query
  plain : Query
  refuses : Query.family.Refuses query
  silent : ∀ k, plain.supports k = false
  stream_eq : query.stream = plain.stream

/-- Any source that advertises nothing, as one that advertises some kinds and refuses with errors of
its own. -/
def RefusingSource.withErrors (name : String) (supported : List PushDown)
    (refusal : PushDown → List Expr → QueryError) (plain : Query)
    (silent : ∀ k, plain.supports k = false) : RefusingSource where
  query := .absorbing name supported (some refusal) plain
  plain := plain
  refuses := Query.refuses_absorbing name supported refusal plain
  silent := silent
  stream_eq := rfl

/-- Any source, be it a table, as one that advertises some kinds but has no way to absorb operators,
and as one that advertises nothing. -/
def RefusingSource.withDefault (supported : List PushDown) (input : Query) : RefusingSource where
  query := .declining supported input
  plain := .declining [] input
  refuses := Query.refuses_declining supported input
  silent := fun _ => rfl
  stream_eq := rfl

/-! ## Queries that mirror each other -/

/-- The same operators with the same expressions, over the same sources, but for sources that refuse
in the first query and advertise nothing in the second. -/
inductive Query.Mirrors : Query → Query → Prop
  | same (q : Query) : Mirrors q q
  | source (r : RefusingSource) : Mirrors r.query r.plain
  | counting {q q' : Query} (counter : Nat) (h : Mirrors q q') :
    Mirrors (.counting counter q) (.counting counter q')
  | localFilter {q q' : Query} (h : Mirrors q q') (predicate : Expr) :
    Mirrors (.localFilter q predicate) (.localFilter q' predicate)
  | localProject {q q' : Query} (h : Mirrors q q') (projection : Expr) :
    Mirrors (.localProject q projection) (.localProject q' projection)
  | localJoin {outer outer' inner inner' : Query} (houter : Mirrors outer outer')
    (hinner : Mirrors inner inner') (condition combine : Expr) :
    Mirrors (.localJoin outer inner condition combine) (.localJoin outer' inner' condition combine)

/-- The same operator, over inner queries that mirror each other. -/
inductive Operator.Mirrors : Operator → Operator → Prop
  | filter (predicate : Expr) : Mirrors (.filter predicate) (.filter predicate)
  | project (projection : Expr) : Mirrors (.project projection) (.project projection)
  | innerJoin {inner inner' : Query} (h : inner.Mirrors inner') (condition combine : Expr) :
    Mirrors (.innerJoin inner condition combine) (.innerJoin inner' condition combine)

/-- A join is carried out here, or a source takes it over without effect, whatever the inner query
is. -/
theorem Query.apply_innerJoin_cases (q : Query) (condition combine : Expr) :
    (∀ inner, q.apply (.innerJoin inner condition combine)
      = q.applyLocally (.innerJoin inner condition combine)) ∨
    ∀ inner, q.apply (.innerJoin inner condition combine) = q := by
  cases q with
  | absorbing name supported refusal input =>
      cases refusal with
      | some refusal =>
          left
          intro inner
          exact Pipeline.apply_of_refuses (fun _ => ⟨_, rfl⟩)
      | none =>
          by_cases hsupported : supported.contains .innerJoin = true
          · right
            intro inner
            have hadvertised : (absorbing name supported none input).supports
                (Operator.innerJoin inner condition combine).kind = true := hsupported
            rw [apply, dispatch_of_supports hadvertised, pushDownOrLocal_of_ok rfl]
          · left
            intro inner
            exact apply_of_not_supports (Bool.eq_false_iff.mpr hsupported)
  | declining supported input =>
      left
      intro inner
      exact Pipeline.apply_of_refuses (fun _ => ⟨_, rfl⟩)
  | _ =>
      left
      intro inner
      rfl

namespace Query.Mirrors

variable {q q' : Query} {op op' : Operator}

theorem applyLocally (h : q.Mirrors q') (hop : op.Mirrors op') :
    (q.applyLocally op).Mirrors (q'.applyLocally op') := by
  cases hop with
  | filter p => exact h.localFilter p
  | project e => exact h.localProject e
  | innerJoin hinner condition combine => exact h.localJoin hinner condition combine

/-- Where neither query has a source that takes the operator over, it is carried out in both. -/
theorem apply_of_local (h : q.Mirrors q') (hop : op.Mirrors op')
    (hq : q.apply op = q.applyLocally op) (hq' : q'.apply op' = q'.applyLocally op') :
    (q.apply op).Mirrors (q'.apply op') := by
  rw [hq, hq']
  exact h.applyLocally hop

theorem apply_same (q : Query) (hop : op.Mirrors op') : (q.apply op).Mirrors (q.apply op') := by
  cases hop with
  | filter p => exact .same _
  | project e => exact .same _
  | innerJoin hinner condition combine =>
      rcases apply_innerJoin_cases q condition combine with hlocal | habsorbed
      · exact (same q).apply_of_local (.innerJoin hinner condition combine) (hlocal _) (hlocal _)
      · rw [habsorbed, habsorbed]
        exact .same q

/-- **An operator applied to queries that mirror each other gives queries that do.** -/
theorem apply (h : q.Mirrors q') (hop : op.Mirrors op') : (q.apply op).Mirrors (q'.apply op') := by
  cases h with
  | same q => exact apply_same q hop
  | source r =>
      -- one source is asked and refuses, the other is not even asked
      refine (source r).apply_of_local hop ?_ ?_
      · exact (r.query.apply_eq op).trans (r.refuses.apply op)
      · exact Query.apply_of_not_supports (r.silent _)
  | counting counter h =>
      exact (h.counting counter).apply_of_local hop (Query.apply_of_not_supports rfl)
        (Query.apply_of_not_supports rfl)
  | localFilter h p =>
      exact (h.localFilter p).apply_of_local hop (Query.apply_of_not_supports rfl)
        (Query.apply_of_not_supports rfl)
  | localProject h e =>
      exact (h.localProject e).apply_of_local hop (Query.apply_of_not_supports rfl)
        (Query.apply_of_not_supports rfl)
  | localJoin houter hinner condition combine =>
      exact (houter.localJoin hinner condition combine).apply_of_local hop
        (Query.apply_of_not_supports rfl) (Query.apply_of_not_supports rfl)

end Query.Mirrors

/-! ## Streams -/

/-- Streams in the same state, of queries that mirror each other. -/
inductive Stream.Mirrors : Stream → Stream → Prop
  | same (s : Stream) : Mirrors s s
  | counting {s s' : Stream} (counter : Nat) (h : Mirrors s s') :
    Mirrors (.counting counter s) (.counting counter s')
  | cancellable {s s' : Stream} (h : Mirrors s s') : Mirrors (.cancellable s) (.cancellable s')
  | filterIdle {q q' : Query} (h : q.Mirrors q') (predicate : Expr) :
    Mirrors (.filterIdle q predicate) (.filterIdle q' predicate)
  | filterOpen {s s' : Stream} (predicate : CompiledExpr) (h : Mirrors s s') :
    Mirrors (.filterOpen predicate s) (.filterOpen predicate s')
  | projectIdle {q q' : Query} (h : q.Mirrors q') (projection : Expr) :
    Mirrors (.projectIdle q projection) (.projectIdle q' projection)
  | projectOpen {s s' : Stream} (projection : CompiledExpr) (h : Mirrors s s') :
    Mirrors (.projectOpen projection s) (.projectOpen projection s')
  | joinIdle {outer outer' inner inner' : Query} (houter : outer.Mirrors outer')
    (hinner : inner.Mirrors inner') (condition combine : Expr) :
    Mirrors (.joinIdle outer inner condition combine) (.joinIdle outer' inner' condition combine)
  | joinOuter {inner inner' : Query} {outer outer' : Stream} (hinner : inner.Mirrors inner')
    (condition combine : CompiledExpr) (houter : Mirrors outer outer') :
    Mirrors (.joinOuter inner condition combine outer) (.joinOuter inner' condition combine outer')
  | joinInner {inner inner' : Query} {outer outer' current current' : Stream}
    (hinner : inner.Mirrors inner') (condition combine : CompiledExpr)
    (houter : Mirrors outer outer') (row : Value) (hcurrent : Mirrors current current') :
    Mirrors (.joinInner inner condition combine outer row current)
      (.joinInner inner' condition combine outer' row current')

/-- Two rounds come to the same answer, and leave streams that mirror each other. -/
structure Round.Mirrors (r r' : Round Stream) : Prop where
  answer : r.answer = r'.answer
  next : r.next.Mirrors r'.next

theorem Round.Mirrors.exists_eq {r r' : Round Stream} (h : r.Mirrors r') :
    ∃ answer next next' events events', r = ⟨answer, next, events⟩ ∧
      r' = ⟨answer, next', events'⟩ ∧ next.Mirrors next' :=
  ⟨r.answer, r.next, r'.next, r.events, r'.events, rfl, by rw [h.answer], h.next⟩

theorem Query.Mirrors.stream {q q' : Query} (h : q.Mirrors q') : q.stream.Mirrors q'.stream := by
  induction h with
  | same q => exact .same _
  | source r =>
      rw [r.stream_eq]
      exact .same _
  | counting counter _ ih => exact ih.counting counter
  | localFilter h p => exact .filterIdle h p
  | localProject h e => exact .projectIdle h e
  | localJoin houter hinner condition combine => exact .joinIdle houter hinner condition combine

namespace Stream

section Operators

variable {r r' : Round Stream}

theorem mirrors_filterNext (c : CompiledExpr) (h : r.Mirrors r') :
    (filterNext c r).Mirrors (filterNext c r') := by
  obtain ⟨answer, next, next', events, events', rfl, rfl, hnext⟩ := h.exists_eq
  rcases answer with _ | v | e | _ | _
  · exact ⟨rfl, hnext.filterOpen c⟩
  · simp only [filterNext]
    split
    · exact ⟨rfl, hnext.filterOpen c⟩
    · exact ⟨rfl, hnext.filterOpen c⟩
    · exact ⟨rfl, .same _⟩
  · exact ⟨rfl, .same _⟩
  · exact ⟨rfl, hnext.filterOpen c⟩
  · exact ⟨rfl, .same _⟩

theorem mirrors_projectNext (c : CompiledExpr) (h : r.Mirrors r') :
    (projectNext c r).Mirrors (projectNext c r') := by
  obtain ⟨answer, next, next', events, events', rfl, rfl, hnext⟩ := h.exists_eq
  rcases answer with _ | v | e | _ | _
  · exact ⟨rfl, hnext.projectOpen c⟩
  · simp only [projectNext]
    split
    · exact ⟨rfl, hnext.projectOpen c⟩
    · exact ⟨rfl, .same _⟩
  · exact ⟨rfl, .same _⟩
  · exact ⟨rfl, hnext.projectOpen c⟩
  · exact ⟨rfl, .same _⟩

theorem mirrors_joinOuterNext {inner inner' : Query} (hinner : inner.Mirrors inner')
    (c d : CompiledExpr) (h : r.Mirrors r') :
    (joinOuterNext inner c d r).Mirrors (joinOuterNext inner' c d r') := by
  obtain ⟨answer, next, next', events, events', rfl, rfl, hnext⟩ := h.exists_eq
  rcases answer with _ | v | e | _ | _
  · exact ⟨rfl, .joinOuter hinner c d hnext⟩
  · exact ⟨rfl, .joinInner hinner c d hnext v hinner.stream.cancellable⟩
  · exact ⟨rfl, .same _⟩
  · exact ⟨rfl, .joinOuter hinner c d hnext⟩
  · exact ⟨rfl, .same _⟩

theorem mirrors_joinInnerNext {inner inner' : Query} (hinner : inner.Mirrors inner')
    (c d : CompiledExpr) {outer outer' : Stream} (houter : outer.Mirrors outer') (row : Value)
    (h : r.Mirrors r') :
    (joinInnerNext inner c d outer row r).Mirrors (joinInnerNext inner' c d outer' row r') := by
  obtain ⟨answer, next, next', events, events', rfl, rfl, hnext⟩ := h.exists_eq
  have hstay := Stream.Mirrors.joinInner hinner c d houter row hnext
  rcases answer with _ | v | e | _ | _
  · exact ⟨rfl, hstay⟩
  · simp only [joinInnerNext]
    split
    · exact ⟨rfl, hstay⟩
    · exact ⟨rfl, hstay⟩
    · exact ⟨rfl, .same _⟩
  · exact ⟨rfl, .same _⟩
  · exact ⟨rfl, hstay⟩
  · exact ⟨rfl, .joinOuter hinner c d houter⟩

theorem mirrors_around {s s' : Stream} (h : r.Mirrors r') :
    ((Cancellable.around release false s (fun _ => r)).map adapter).Mirrors
      ((Cancellable.around release false s' (fun _ => r')).map adapter) := by
  obtain ⟨answer, next, next', events, events', rfl, rfl, hnext⟩ := h.exists_eq
  rcases answer with _ | v | e | _ | _
  · exact ⟨rfl, hnext.cancellable⟩
  · exact ⟨rfl, hnext.cancellable⟩
  · exact ⟨rfl, hnext.cancellable⟩
  · exact ⟨rfl, hnext.cancellable⟩
  · exact ⟨rfl, .same _⟩

end Operators

/-- **Streams that mirror each other do so after a round, and answer the same in it.** -/
theorem mirrors_step (g : Setting) (token : Bool) {s s' : Stream} (h : s.Mirrors s') :
    (step g token s).Mirrors (step g token s') := by
  induction h with
  | same s => exact ⟨rfl, .same _⟩
  | counting counter _ ih => exact ⟨ih.answer, ih.next.counting counter⟩
  | cancellable _ ih =>
      cases token with
      | true => exact ⟨rfl, .same _⟩
      | false => exact mirrors_around ih
  | filterIdle h p =>
      cases token with
      | true => exact ⟨rfl, .same _⟩
      | false =>
          rw [step, step, if_neg Bool.false_ne_true, if_neg Bool.false_ne_true]
          rcases g.compile p 1 with ⟨e | c, events⟩
          · exact ⟨rfl, .same _⟩
          · exact ⟨rfl, .filterOpen c h.stream.cancellable⟩
  | filterOpen c _ ih =>
      cases token with
      | true => exact ⟨rfl, .same _⟩
      | false => exact mirrors_filterNext c ih
  | projectIdle h e =>
      cases token with
      | true => exact ⟨rfl, .same _⟩
      | false =>
          rw [step, step, if_neg Bool.false_ne_true, if_neg Bool.false_ne_true]
          rcases g.compile e 1 with ⟨err | c, events⟩
          · exact ⟨rfl, .same _⟩
          · exact ⟨rfl, .projectOpen c h.stream.cancellable⟩
  | projectOpen c _ ih =>
      cases token with
      | true => exact ⟨rfl, .same _⟩
      | false => exact mirrors_projectNext c ih
  | joinIdle houter hinner condition combine =>
      cases token with
      | true => exact ⟨rfl, .same _⟩
      | false =>
          rw [step, step, if_neg Bool.false_ne_true, if_neg Bool.false_ne_true]
          rcases g.compileBoth condition combine 2 with ⟨e | ⟨c, d⟩, events⟩
          · exact ⟨rfl, .same _⟩
          · exact ⟨rfl, .joinOuter hinner c d houter.stream.cancellable⟩
  | joinOuter hinner c d _ ih =>
      cases token with
      | true => exact ⟨rfl, .same _⟩
      | false => exact mirrors_joinOuterNext hinner c d ih
  | joinInner hinner c d houter row _ _ ih =>
      cases token with
      | true => exact ⟨rfl, .same _⟩
      | false => exact mirrors_joinInnerNext hinner c d houter row ih

theorem mirrors_poll (g : Setting) (token : Bool) (s : Stream) :
    ∀ s' : Stream, s.Mirrors s' →
      (poll g token s).answer = (poll g token s').answer ∧
        (poll g token s).next.Mirrors (poll g token s').next := by
  fun_induction poll g token s with
  | case1 g s answer next events hs =>
      intro s' h
      obtain ⟨_, _, next', _, events', hround, hs', hnext⟩ := (mirrors_step g token h).exists_eq
      rw [hs] at hround
      cases hround
      rw [poll_of_step_some hs']
      exact ⟨rfl, hnext⟩
  | case2 g s next events hs rest ih =>
      intro s' h
      obtain ⟨_, _, next', _, events', hround, hs', hnext⟩ := (mirrors_step g token h).exists_eq
      rw [hs] at hround
      cases hround
      rw [poll_of_step_none hs']
      -- the rounds may report different openings, which does not show in the answers
      obtain ⟨hanswers, hlast⟩ := ih next' hnext
      have hbehavior : (g.recordAll events).behavior = (g.recordAll events').behavior := by
        rw [Setting.behavior_recordAll, Setting.behavior_recordAll]
      obtain ⟨hseen, hleft⟩ := poll_alike token next' (g.recordAll events) (g.recordAll events')
        (.inr hbehavior)
      exact ⟨hanswers.trans hseen, hleft ▸ hlast⟩

/-- Streams that mirror each other answer the same on every schedule. -/
theorem mirrors_pollAll (occasions : List Occasion) {s s' : Stream} (h : s.Mirrors s') :
    (s.pollAll occasions).answers = (s'.pollAll occasions).answers := by
  induction occasions generalizing s s' with
  | nil => rfl
  | cons o rest ih =>
      obtain ⟨hanswer, hnext⟩ := mirrors_poll o.setting o.cancelled s s' h
      rw [pollAll, pollAll, hanswer, ih hnext]

end Stream

/-! ## Trees -/

/-- How a query is put together, over leaves some of which refuse. -/
inductive QueryTree where
  | leaf (q : Query)
  | refusing (r : RefusingSource)
  | counting (counter : Nat) (input : QueryTree)
  | filter (input : QueryTree) (predicate : Expr)
  | project (input : QueryTree) (projection : Expr)
  | innerJoin (outer inner : QueryTree) (condition combine : Expr)

namespace QueryTree

/-- The query of the tree, where `source` says what stands at the leaves that refuse. -/
def build (source : RefusingSource → Query) : QueryTree → Query
  | .leaf q => q
  | .refusing r => source r
  | .counting counter input => .counting counter (build source input)
  | .filter input p => (build source input).filter p
  | .project input e => (build source input).project e
  | .innerJoin outer inner condition combine =>
    (build source outer).innerJoin (build source inner) condition combine

def query (t : QueryTree) : Query := t.build RefusingSource.query

/-- The query with leaves of the same elements that advertise nothing. -/
def plain (t : QueryTree) : Query := t.build RefusingSource.plain

theorem mirrors_plain (t : QueryTree) : t.query.Mirrors t.plain := by
  induction t with
  | leaf q => exact .same q
  | refusing r => exact .source r
  | counting counter input ih => exact ih.counting counter
  | filter input p ih => exact ih.apply (.filter p)
  | project input e ih => exact ih.apply (.project e)
  | innerJoin outer inner condition combine ihOuter ihInner =>
      exact ihOuter.apply (.innerJoin ihInner condition combine)

/-! ### What is handed over -/

/-- Puts the query together, with all calls that this takes on record. -/
def run : QueryTree → Handing Query Operator Query
  | .leaf q => return q
  | .refusing r => return r.query
  | .counting counter input => return .counting counter (← run input)
  | .filter input p => do (← run input).dispatch (.filter p)
  | .project input e => do (← run input).dispatch (.project e)
  | .innerJoin outer inner condition combine => do
    let outer ← run outer
    let inner ← run inner
    outer.dispatch (.innerJoin inner condition combine)

/-- An operator of a tree, with the part of the tree that it is applied to. -/
structure Application where
  input : QueryTree
  op : Operator

/-- The calls that applying the operator takes. -/
def Application.calls (a : Application) : List (Query × Operator) :=
  (a.input.query.dispatch a.op).calls

/-- The operators of the tree in the order in which they are applied. -/
def applications : QueryTree → List Application
  | .leaf _ => []
  | .refusing _ => []
  | .counting _ input => applications input
  | .filter input p => applications input ++ [⟨input, .filter p⟩]
  | .project input e => applications input ++ [⟨input, .project e⟩]
  | .innerJoin outer inner condition combine =>
    applications outer ++ applications inner ++ [⟨outer, .innerJoin inner.query condition combine⟩]

/-- To put the query together, every operator is applied once, in order, and nothing else is done
that calls a source. -/
theorem run_eq (t : QueryTree) : t.run = ⟨t.query, t.applications.flatMap Application.calls⟩ := by
  induction t with
  | leaf q => rfl
  | refusing r => rfl
  | counting counter input ih =>
      rw [run, ih, Handing.bind_eq, Handing.pure_eq, List.append_nil]
      rfl
  | filter input p ih =>
      rw [run, ih, Handing.bind_eq, applications, List.flatMap_append, List.flatMap_singleton]
      rfl
  | project input e ih =>
      rw [run, ih, Handing.bind_eq, applications, List.flatMap_append, List.flatMap_singleton]
      rfl
  | innerJoin outer inner condition combine ihOuter ihInner =>
      rw [run, ihOuter, ihInner, Handing.bind_eq, Handing.bind_eq, applications,
        List.flatMap_append, List.flatMap_append, List.flatMap_singleton, List.append_assoc]
      rfl

/-- Whether the tree is a leaf that refuses. -/
def isRefusing : QueryTree → Bool
  | .refusing _ => true
  | _ => false

/-- The leaf beneath the operators of a tree, along the outer queries of joins. -/
def base : QueryTree → QueryTree
  | .filter input _ => base input
  | .project input _ => base input
  | .innerJoin outer _ _ _ => base outer
  | t => t

/-- Above a leaf that refuses every operator is carried out here. -/
theorem apply_query {t : QueryTree} (h : t.base.isRefusing = true) (op : Operator) :
    t.query.apply op = t.query.applyLocally op := by
  induction t generalizing op with
  | leaf q => cases h
  | refusing r => exact (r.query.apply_eq op).trans (r.refuses.apply op)
  | counting counter input _ => cases h
  | filter input p ih => exact Pipeline.apply_apply (ih h _) op
  | project input e ih => exact Pipeline.apply_apply (ih h _) op
  | innerJoin outer inner condition combine ihOuter _ => exact Pipeline.apply_apply (ihOuter h _) op

/-- What stands on top of such a leaf is an operator that is carried out here. -/
theorem query_eq_applyLocally {t : QueryTree} (hbase : t.base.isRefusing = true)
    (h : t.isRefusing = false) : ∃ (q : Query) (op : Operator), t.query = q.applyLocally op := by
  cases t with
  | leaf q => cases hbase
  | refusing r => cases h
  | counting counter input => cases hbase
  | filter input p => exact ⟨_, _, apply_query (t := input) hbase (.filter p)⟩
  | project input e => exact ⟨_, _, apply_query (t := input) hbase (.project e)⟩
  | innerJoin outer inner condition combine =>
      exact ⟨_, _, apply_query (t := outer) hbase (.innerJoin inner.query condition combine)⟩

namespace Application

variable (a : Application)

theorem calls_eq : a.calls
    = if a.input.query.supports a.op.kind then [(a.input.query, a.op)] else [] := by
  rw [calls, Query.dispatch_eq]
  exact SourceFamily.calls_dispatch (S := Query.family) a.input.query a.op

/-- Nothing is called for an operator on top of one that is carried out here. -/
theorem calls_of_eq_applyLocally {q : Query} {op : Operator}
    (h : a.input.query = q.applyLocally op) : a.calls = [] := by
  rw [calls, h, Query.dispatch_of_not_supports (Query.supports_applyLocally q op a.op.kind)]
  rfl

/-- Above a leaf that refuses, only the operator that is applied to the leaf itself is handed over.
-/
theorem calls_of_base (hbase : a.input.base.isRefusing = true) (h : a.input.isRefusing = false) :
    a.calls = [] := by
  obtain ⟨q, op, hlocal⟩ := query_eq_applyLocally hbase h
  exact a.calls_of_eq_applyLocally hlocal

end Application

end QueryTree

/-! ## The law -/

/-- A source that refuses is handed the operator applied to it, and no other. -/
theorem Session.handed_refusing (s : Session) (name : String) (supported : List PushDown)
    (refusal : PushDown → List Expr → QueryError) (input : Query) (ops : List Operator) :
    ∃ s', s.build
          (ops.foldl Plan.applied (.source (.absorbing name supported (some refusal) input)))
        = some (ops.foldl Query.applyLocally (.absorbing name supported (some refusal) input), s') ∧
      s'.handed name
        = s.handed name ++ (ops.take 1).filter (fun op => supported.contains op.kind) := by
  let source : Query := .absorbing name supported (some refusal) input
  have hdispatch := (Query.refuses_absorbing name supported refusal input).dispatchAll ops
  have hcalls : Query.family.calls source ops
      = ((ops.take 1).filter (fun op => supported.contains op.kind)).map (source, ·) :=
    congrArg Handing.calls hdispatch
  have happly : Query.family.applyAll source ops = ops.foldl Query.applyLocally source :=
    congrArg Handing.value hdispatch
  have hsource : s.build (.source source) = some (source, s.acquaint source) := rfl
  have hsame : ∀ call ∈ Query.family.calls source ops,
      ∃ supported refusal input, call.1 = .absorbing name supported refusal input := by
    intro call hcall
    rw [hcalls] at hcall
    obtain ⟨op, -, rfl⟩ := List.mem_map.mp hcall
    exact ⟨supported, some refusal, input, rfl⟩
  obtain ⟨s', hbuild, hhanded⟩ := handed_foldl_applied hsource hsame
  refine ⟨s', ?_, ?_⟩
  · rw [hbuild, Query.foldl_apply, happly]
  · rw [hhanded, hcalls, List.map_map, handed, handed, journal_acquaint]
    exact congrArg _ (List.map_id _)

/-- **What sources refuse does not show.** Whatever a source refuses with, the operators on top of
it are carried out here, and of them only the one that is applied to the source itself is handed to
it. So in a tree of operators any leaves may refuse: the query is the same as with leaves of the
same elements that advertise nothing, but for these leaves, and its streams answer the same on every
schedule. To put the query together, every operator is applied once; the source that it is applied
to is called once if it advertises the kind, and otherwise not at all. So a leaf that refuses is not
called for what stands on top of other operators, and neither is an operator that is carried out
here. No stream answers with a refusal: its errors are those that operators raise of their own
accord, those in the scripts of leaves and those that connections give. -/
theorem refusals_do_not_show :
    (∀ (q : Query) (op : Operator), q.dispatch op = Query.family.dispatch q op) ∧
    (∀ {σ ω : Type} (S : SourceFamily σ ω) (q : σ), S.Refuses q → ∀ ops : List ω,
      S.dispatchAll q ops = ⟨ops.foldl S.applyLocally q,
        ((ops.take 1).filter (fun op => S.supports q (S.kind op))).map (q, ·)⟩) ∧
    (∀ (s : Session) (name : String) (supported : List PushDown)
        (refusal : PushDown → List Expr → QueryError) (input : Query) (ops : List Operator),
      let source : Query := .absorbing name supported (some refusal) input
      ∃ s', s.build (ops.foldl Plan.applied (.source source))
          = some (ops.foldl Query.applyLocally source, s') ∧
        s'.handed name
          = s.handed name ++ (ops.take 1).filter (fun op => supported.contains op.kind)) ∧
    ∀ t : QueryTree,
      t.query.Mirrors t.plain ∧
      (∀ occasions : List Occasion, (t.query.stream.pollAll occasions).answers
        = (t.plain.stream.pollAll occasions).answers) ∧
      t.run = ⟨t.query, t.applications.flatMap QueryTree.Application.calls⟩ ∧
      (∀ a ∈ t.applications,
        a.calls = (if a.input.query.supports a.op.kind then [(a.input.query, a.op)] else []) ∧
        (a.input.base.isRefusing = true → a.input.isRefusing = false → a.calls = []) ∧
        ∀ (q : Query) (op : Operator), a.input.query = q.applyLocally op → a.calls = []) ∧
      ∀ P : QueryError → Prop, (∀ e : QueryError, e.isOwn = true → P e) → t.plain.ErrorsIn P →
        ∀ occasions : List Occasion, (∀ o ∈ occasions, o.setting.ErrorsIn P) →
          ∀ e, .error e ∈ (t.query.stream.pollAll occasions).answers → P e := by
  refine ⟨Query.dispatch_eq, fun S q h ops => h.dispatchAll ops, ?_, ?_⟩
  · intro s name supported refusal input ops source
    exact s.handed_refusing name supported refusal input ops
  · intro t
    have hsame : ∀ occasions : List Occasion, (t.query.stream.pollAll occasions).answers
        = (t.plain.stream.pollAll occasions).answers :=
      fun occasions => Stream.mirrors_pollAll occasions t.mirrors_plain.stream
    refine ⟨t.mirrors_plain, hsame, t.run_eq, ?_, ?_⟩
    · intro a _
      exact ⟨a.calls_eq, a.calls_of_base, fun q op => a.calls_of_eq_applyLocally⟩
    · intro P hown hplain occasions hsettings e hmem
      -- the answers are those of the tree without refusing leaves, whose errors have other origins
      rw [hsame] at hmem
      exact Stream.errorsIn_pollAll hown hsettings (Stream.errorsIn_stream hplain) hmem

/-- A join of a script whose source refuses in its own words with a table whose source has no way to
absorb operators. Both are filtered first. -/
def QueryTree.refused : QueryTree :=
  .innerJoin
    (.filter (.refusing (.withErrors "source" [.filter] (fun _ _ => .failure "refused")
      (.script "script" [.value (.int64 1), .pending, .error (.failure "broken")] true)
      (fun _ => rfl))) (.constant (.boolean true)))
    (.filter (.refusing (.withDefault [.filter, .project]
      (.sql (.new ⟨"connection", .ansi, .positional⟩ ⟨none, "t", []⟩ .default)))) (.column "a"))
    (.constant (.boolean true)) (.argument 1)

/-- Both sources are handed their filters and refuse them, the join is not handed to anybody, and
nobody hears of it. -/
theorem refusals_do_not_show_filtered :
    QueryTree.refused.run.calls.map (·.2)
        = [.filter (.constant (.boolean true)), .filter (.column "a")] ∧
      ∀ e : QueryError, e = .failure "refused" ∨ e = .unsupportedPushDown "filter" →
        .error e ∉ (QueryTree.refused.query.stream.pollAll
          (List.replicate 4 (.live (Session.new []).setting))).answers := by
  obtain ⟨-, -, hrun, -, herrors⟩ := refusals_do_not_show.2.2.2 QueryTree.refused
  refine ⟨?_, ?_⟩
  · rw [hrun]
    rfl
  · intro e he hmem
    have hown : ∀ e' : QueryError, e'.isOwn = true → e' ≠ e := by
      rintro e' hown rfl
      rcases he with rfl | rfl
      · cases hown
      · cases hown
    have hplain : QueryTree.refused.plain.ErrorsIn (· ≠ e) := by
      refine ⟨?_, trivial⟩
      -- the script has an error, but another one
      rintro e' he' rfl
      rcases he with rfl | rfl
      · simp at he'
      · simp at he'
    have hsettings : ∀ o ∈ List.replicate 4 (Occasion.live (Session.new []).setting),
        o.setting.ErrorsIn (· ≠ e) := by
      intro o ho name
      rw [List.eq_of_mem_replicate ho]
      exact ⟨fun e he => (Option.some_ne_none e he.symm).elim,
        fun e he => (List.not_mem_nil he).elim⟩
    exact herrors (· ≠ e) hown hplain _ hsettings e hmem rfl

end RowQuery
