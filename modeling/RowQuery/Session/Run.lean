import RowQuery.Session.Plan
import RowQuery.Sql.Record

set_option autoImplicit false

/-! # Actions of a session

What can be done in a session. Each action takes the session and gives what it comes to together
with the session after it; an action that names something unknown comes to nothing. -/

namespace RowQuery

/-- What polling a reader until there is nothing to have now comes to: the entries before that, and
how many polls it took. -/
def readAvailable : List (Item Row) → List (Except QueryError Row) × Nat
  | [] => ([], 1)
  | .pending :: _ => ([], 1)
  | .value row :: rest =>
    let (rows, polls) := readAvailable rest
    (.ok row :: rows, polls + 1)
  | .error e :: rest =>
    let (rows, polls) := readAvailable rest
    (.error e :: rows, polls + 1)

/-- What giving a command to a connection directly comes to. -/
inductive CommandResult where
  | error (e : QueryError)
  /-- The execution is suspended. -/
  | pending
  | rows (rows : List (Except QueryError Row))

namespace Session

/-- Defines a query. -/
def define (s : Session) (name : String) (plan : Plan) : Option (Query × Session) := do
  let (q, s) ← s.build plan
  return (q, { s with queries := s.queries.set name q })

/-- Drops the stream of a name, if there is one. -/
def dropStream (s : Session) (name : String) : Bool × Session :=
  match s.streams.get? name with
  | some held =>
    (true, { s with streams := s.streams.erase name }.record held.stream.release)
  | none => (false, s)

/-- Opens a stream of a query under a name and a token. A stream held under that name is dropped
afterwards. -/
def openStream (s : Session) (name : String) (plan : Plan) (token : String) :
    Option (Query × Session) := do
  let (q, s) ← s.build plan
  let (_, s) := (s.record q.openEvents).dropStream name
  return (q, { s with streams := s.streams.set name ⟨token, q.stream⟩ })

/-- Polls a stream once. -/
def next (s : Session) (name : String) : Option (Answer × Session) := do
  let held ← s.streams.get? name
  let p := Stream.poll s.setting (s.isCancelled held.token) held.stream
  return (p.answer,
    { s with streams := s.streams.set name ⟨held.token, p.next⟩ }.record p.events)

/-- Polls a stream until it has ended or is not ready. -/
def drain (s : Session) (name : String) : Option (List Answer × Session) := do
  let held ← s.streams.get? name
  let d := Stream.drain s.setting (s.isCancelled held.token) held.stream
  return (d.answers,
    { s with streams := s.streams.set name ⟨held.token, d.next⟩ }.record d.events)

/-- Cancels a token, for the streams opened under it before and after. -/
def cancel (s : Session) (token : String) : Session :=
  { s with cancelled := token :: s.cancelled }

/-- Enumerates a query under a token of its own, making something of each element. -/
def gather {α : Type} (s : Session) (make : Value → Except QueryError α) (plan : Plan) :
    Option (Outcome α × Session) := do
  let (q, s) ← s.build plan
  let g := q.gather s.setting make
  return (g.outcome, s.record g.events)

/-- All elements of a query. -/
def collect (s : Session) (plan : Plan) : Option (Outcome Value × Session) := s.gather .ok plan

/-- The records of all elements of a query. -/
def collectRecords {α : Type} (s : Session) (r : Record α) (plan : Plan) :
    Option (Outcome α × Session) :=
  s.gather r.fromValue plan

/-- Changes how a connection answers from now on. -/
def setBehavior (s : Session) (connection : String) (behavior : Behavior) : Option Session := do
  let attached ← s.connections.get? connection
  return { s with
    connections := s.connections.set connection { attached with behavior := behavior } }

/-- Gives a command to a connection and reads the rows that are to be had at once. -/
def command (s : Session) (connection : String) (command : IssuedCommand) :
    Option (CommandResult × Session) := do
  let attached ← s.connections.get? connection
  match attached.behavior.refusal with
  | some e => return (.error e, s.record [.requested connection])
  | none =>
    let s := s.record [.requested connection, .executed connection command]
    match attached.behavior.delay, attached.behavior.reply with
    | 0, .fails e => return (.error e, s)
    | 0, .reader entries =>
      let (rows, polls) := readAvailable entries
      return (.rows rows, s.record (List.replicate polls (.polled (.reader connection))))
    | _, _ => return (.pending, s)

/-- The kinds of operator that the source of a query advertises. -/
def supports (s : Session) (plan : Plan) : Option (List Bool × Session) := do
  let (q, s) ← s.build plan
  return (PushDown.all.map q.supports, s)

/-- An operator whose inner query is still a plan. -/
inductive PlannedOperator where
  | filter (predicate : Expr)
  | project (projection : Expr)
  | innerJoin (inner : Plan) (condition combine : Expr)

/-- Builds the inner query of an operator, if it has one. -/
def buildOperator (s : Session) : PlannedOperator → Option (Operator × Session)
  | .filter p => some (.filter p, s)
  | .project e => some (.project e, s)
  | .innerJoin inner condition combine => do
    let (q, s) ← s.build inner
    return (.innerJoin q condition combine, s)

/-- Hands an operator to the source of a query, whether it advertises the kind or not, and defines
the query that absorbs it. -/
def pushDown (s : Session) (plan : Plan) (op : PlannedOperator) (name : String) :
    Option (Except QueryError Query × Session) := do
  let (q, s) ← s.build plan
  let (op, s) ← s.buildOperator op
  let (answer, s) := s.heed (q.handOver op)
  match answer with
  | .ok q' => return (.ok q', { s with queries := s.queries.set name q' })
  | .error e => return (.error e, s)

end Session

end RowQuery
