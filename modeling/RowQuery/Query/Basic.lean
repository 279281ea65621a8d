import RowQuery.Query.Script
import RowQuery.Sql.Command

set_option autoImplicit false

/-! # Queries

A query describes where elements come from and what is done with them; nothing is read until a
stream of it is opened and polled (`RowQuery.Query.Stream`). Its leaves are sources: values in
memory, tables of a database, and sources that follow a script or have some other fixed behaviour. A
source may also pass on the elements of another query, and take or refuse operators in its place.

An operator is applied with `Query.dispatch`. A source that advertises the operator's kind is handed
the operator and may absorb it; everything else, and every operator that is refused, runs here on
top of the query. What sources have been handed is on record with the query that comes of it. -/

namespace RowQuery

/-- A query. -/
inductive Query where
  /-- Values held in memory. -/
  | values (rows : List Value)
  /-- A source that follows a script each time it is opened. It may disregard cancellation. -/
  | script (name : String) (items : List (Item Value)) (observesToken : Bool)
  /-- A source that never answers and disregards cancellation. -/
  | stalled
  /-- A source that answers with one error. -/
  | failing (e : QueryError)
  /-- The same elements as `input`; the counter is told of every stream opened and dropped. -/
  | counting (counter : Nat) (input : Query)
  /-- The elements of `input`, from a source that advertises kinds of operator and keeps a record of
  the operators that it is handed. It absorbs them without effect, or refuses each with an error of
  its own, which may tell of the kind and the expressions of the operator. -/
  | absorbing (name : String) (supported : List PushDown)
    (refusal : Option (PushDown → List Expr → QueryError)) (input : Query)
  /-- The elements of `input`, from a source that advertises kinds of operator but has no way to
  absorb them. -/
  | declining (supported : List PushDown) (input : Query)
  /-- A table of a database. -/
  | sql (q : SqlQuery)
  /-- The elements of `input` on which the predicate holds. -/
  | localFilter (input : Query) (predicate : Expr)
  /-- The values of the projection on the elements of `input`. -/
  | localProject (input : Query) (projection : Expr)
  /-- For each element of `outer` the elements of a new stream of `inner`; where the condition holds
  of the two, the value of `combine` on them. -/
  | localJoin (outer inner : Query) (condition combine : Expr)

/-- An operator that may be applied to a query. -/
inductive Operator where
  | filter (predicate : Expr)
  | project (projection : Expr)
  | innerJoin (inner : Query) (condition combine : Expr)

/-- The kind of an operator. -/
def Operator.kind : Operator → PushDown
  | .filter _ => .filter
  | .project _ => .project
  | .innerJoin .. => .innerJoin

/-- The expressions of an operator, in order. -/
def Operator.exprs : Operator → List Expr
  | .filter predicate => [predicate]
  | .project projection => [projection]
  | .innerJoin _ condition combine => [condition, combine]

namespace Query

/-- The integers from `first` up to but not including `last`. -/
def range (first last : Int) : Query :=
  .values ((List.range (last - first).toNat).map (fun (i : Nat) => .int64 (.ofInt (first + i))))

/-- Whether the source of the query advertises that it can carry out operators of a kind. -/
def supports : Query → PushDown → Bool
  | .absorbing _ supported _ _, kind => supported.contains kind
  | .declining supported _, kind => supported.contains kind
  | .sql _, kind => kind = .filter
  | _, _ => false

/-- Hands an operator to the source of the query: the source with the operator absorbed, or its
refusal. -/
def pushDown : Query → Operator → Except QueryError Query
  | .absorbing _ _ (some refusal) _, op => .error (refusal op.kind op.exprs)
  | .absorbing name supported none input, _ => .ok (.absorbing name supported none input)
  | .sql q, .filter p => .ok (.sql (q.filter p))
  | _, op => .error (.unsupportedPushDown op.kind.name)

/-- Hands an operator to the source of the query, on record. -/
def handOver (q : Query) (op : Operator) : Handing Query Operator (Except QueryError Query) :=
  ⟨q.pushDown op, [(q, op)]⟩

/-- The operator carried out here, on the results of the query. -/
def applyLocally (q : Query) : Operator → Query
  | .filter p => .localFilter q p
  | .project e => .localProject q e
  | .innerJoin inner condition combine => .localJoin q inner condition combine

/-- Hands an operator to the source of the query. If the source refuses, the operator is put
together again from what was handed over, and carried out here. -/
def pushDownOrLocal (q : Query) (op : Operator) : Handing Query Operator Query := do
  match ← q.handOver op with
  | .ok absorbed => return absorbed
  | .error _ => return q.applyLocally op

/-- Applies an operator: in the source, if it advertises the kind and does not refuse, otherwise
here. -/
def dispatch (q : Query) : Operator → Handing Query Operator Query
  | .filter predicate =>
    if q.supports .filter then q.pushDownOrLocal (.filter predicate)
    else return .localFilter q predicate
  | .project projection =>
    if q.supports .project then q.pushDownOrLocal (.project projection)
    else return .localProject q projection
  | .innerJoin inner condition combine =>
    if q.supports .innerJoin then q.pushDownOrLocal (.innerJoin inner condition combine)
    else return .localJoin q inner condition combine

/-- The query with an operator applied to it. -/
def apply (q : Query) (op : Operator) : Query := (q.dispatch op).value

/-- The operators that are handed to the source of the query when one is applied. -/
def handed (q : Query) (op : Operator) : List Operator := (q.dispatch op).calls.map (·.2)

/-- Keeps the elements on which the predicate holds. -/
def filter (q : Query) (predicate : Expr) : Query := q.apply (.filter predicate)

/-- Maps every element. -/
def project (q : Query) (projection : Expr) : Query := q.apply (.project projection)

/-- Joins with the elements of another query, which is enumerated anew for each element of this one.
-/
def innerJoin (q inner : Query) (condition combine : Expr) : Query :=
  q.apply (.innerJoin inner condition combine)

/-- An operator whose kind is advertised is handed over once, to the source of the query. -/
theorem dispatch_of_supports {q : Query} {op : Operator} (h : q.supports op.kind = true) :
    q.dispatch op = q.pushDownOrLocal op := by
  cases op <;> exact if_pos h

/-- An operator whose kind is not advertised is never handed over. -/
theorem dispatch_of_not_supports {q : Query} {op : Operator} (h : q.supports op.kind = false) :
    q.dispatch op = pure (q.applyLocally op) := by
  cases op <;> exact if_neg (Bool.eq_false_iff.mp h)

/-- An operator that is absorbed has been handed over once. -/
theorem pushDownOrLocal_of_ok {q q' : Query} {op : Operator} (h : q.pushDown op = .ok q') :
    q.pushDownOrLocal op = ⟨q', [(q, op)]⟩ := by
  rw [pushDownOrLocal, handOver, h]
  rfl

/-- An operator that is refused has been handed over once too. -/
theorem pushDownOrLocal_of_error {q : Query} {op : Operator} {e : QueryError}
    (h : q.pushDown op = .error e) : q.pushDownOrLocal op = ⟨q.applyLocally op, [(q, op)]⟩ := by
  rw [pushDownOrLocal, handOver, h]
  rfl

theorem apply_of_not_supports {q : Query} {op : Operator} (h : q.supports op.kind = false) :
    q.apply op = q.applyLocally op := by
  rw [apply, dispatch_of_not_supports h, Handing.pure_eq]

/-- An operator carried out here advertises nothing, so what is applied on top of it stays here too.
-/
theorem supports_applyLocally (q : Query) (op : Operator) (kind : PushDown) :
    (q.applyLocally op).supports kind = false := by
  cases op <;> rfl

end Query

end RowQuery
