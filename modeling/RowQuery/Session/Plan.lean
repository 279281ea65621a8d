import RowQuery.Session.Basic

set_option autoImplicit false

/-! # Plans

A plan says how a query is put together from sources, operators and queries that the session has
defined before. Building it applies the operators in order, outer input before inner input, and
notes what the sources are handed on the way. Nothing is opened. -/

namespace RowQuery

/-- How a query is put together. -/
inductive Plan where
  /-- A query that has been defined. -/
  | defined (name : String)
  | source (q : Query)
  /-- A counting source with a counter of its own, reported under a name. -/
  | counting (name : String) (input : Plan)
  /-- A table read through a connection of the session. -/
  | table (connection : String) (table : Table) (timeout : Option Duration)
  | filter (input : Plan) (predicate : Expr)
  | project (input : Plan) (projection : Expr)
  | innerJoin (outer inner : Plan) (condition combine : Expr)

namespace Session

/-- The session where the names that a source reports under are known. -/
def acquaint (s : Session) : Query → Session
  | .script name _ _ =>
    if s.polledNames.contains name then s else { s with polledNames := name :: s.polledNames }
  | .absorbing name _ _ input =>
    let s := acquaint s input
    if s.absorberNames.contains name then s
    else { s with absorberNames := name :: s.absorberNames }
  | .declining _ input => acquaint s input
  | _ => s

/-- Nothing but these names is remembered. -/
theorem acquaint_eq (s : Session) (q : Query) : ∃ polled absorbers,
    s.acquaint q = { s with polledNames := polled, absorberNames := absorbers } := by
  induction q with
  | script name items observes =>
    rw [acquaint]
    split <;> exact ⟨_, _, rfl⟩
  | absorbing name supported refusal input ih =>
    obtain ⟨polled, absorbers, hinput⟩ := ih
    rw [acquaint, hinput]
    split <;> exact ⟨_, _, rfl⟩
  | declining supported input ih => exact ih
  | _ => exact ⟨_, _, rfl⟩

/-- The event of handing an operator to a source, if the source keeps a record of it. -/
def noted : Query × Operator → Option Event
  | (.absorbing name _ _ _, op) => some (.handed name op)
  | _ => none

/-- The session that notes some calls. -/
def noteCalls (s : Session) (calls : List (Query × Operator)) : Session :=
  s.record (calls.filterMap noted)

/-- What comes about by handing operators to sources, and the session that notes the calls. -/
def heed {α : Type} (s : Session) (handing : Handing Query Operator α) : α × Session :=
  (handing.value, s.noteCalls handing.calls)

/-- Builds a plan, if every name in it is known. -/
def build (s : Session) : Plan → Option (Query × Session)
  | .defined name => (s.queries.get? name).map (fun q => (q, s))
  | .source q => some (q, s.acquaint q)
  | .counting name input => do
    let (q, s) ← build s input
    let c := s.counterCount
    return (.counting c q, { s with counters := s.counters.set name c, counterCount := c + 1 })
  | .table connection table timeout => do
    let attached ← s.connections.get? connection
    let options := (timeout.map SqlOptions.default.withCommandTimeout).getD .default
    return (.sql (.new attached.connection table options), s)
  | .filter input p => do
    let (q, s) ← build s input
    return s.heed (q.dispatch (.filter p))
  | .project input e => do
    let (q, s) ← build s input
    return s.heed (q.dispatch (.project e))
  | .innerJoin outer inner condition combine => do
    let (q, s) ← build s outer
    let (r, s) ← build s inner
    return s.heed (q.dispatch (.innerJoin r condition combine))

end Session

end RowQuery
