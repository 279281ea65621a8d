import RowQuery.Query.Poll

set_option autoImplicit false

/-! # Enumerating

Polling a stream more than once. `Stream.drain` notes every answer until there is nothing to have
now; errors do not stop it. `Query.gather` is what a caller does who wants all elements or the first
failure: it opens a stream under a token of its own, makes something of each element as it arrives,
stops at the first error of the stream or of the making, and drops the stream before it returns. -/

namespace RowQuery

/-- What draining a stream comes to. -/
structure Drained where
  answers : List Answer
  next : Stream
  events : List Event

/-- Polls a stream until it has ended or is not ready, and notes the answers, the last one included.
-/
def Stream.drain (setting : Setting) (token : Bool) (s : Stream) : Drained :=
  match _h : (Stream.poll setting token s).answer with
  | .row v =>
    let p := Stream.poll setting token s
    let rest := drain (setting.recordAll p.events) token p.next
    ⟨.row v :: rest.answers, rest.next, p.events ++ rest.events⟩
  | .error e =>
    let p := Stream.poll setting token s
    let rest := drain (setting.recordAll p.events) token p.next
    ⟨.error e :: rest.answers, rest.next, p.events ++ rest.events⟩
  | answer =>
    let p := Stream.poll setting token s
    ⟨[answer], p.next, p.events⟩
termination_by s.work setting.behavior
decreasing_by
  · rw [Setting.behavior_recordAll]
    exact Stream.work_poll_lt_of_row _h
  · rw [Setting.behavior_recordAll]
    exact Stream.work_poll_lt_of_error _h

/-- What becomes of an attempt to have all elements at once. -/
inductive Outcome (α : Type) where
  | ok (items : List α)
  | error (e : QueryError)
  /-- The stream was not ready; the attempt is abandoned. -/
  | pending

/-- One more item in front, if the attempt succeeds. -/
def Outcome.cons {α : Type} (a : α) : Outcome α → Outcome α
  | .ok items => .ok (a :: items)
  | .error e => .error e
  | .pending => .pending

/-- An outcome, and what has happened on the way. -/
structure Gathered (α : Type) where
  outcome : Outcome α
  events : List Event

/-- Makes something of each element of a stream until its end or the first failure, and drops the
stream. -/
def Stream.gather {α : Type} (setting : Setting) (make : Value → Except QueryError α) (s : Stream) :
    Gathered α :=
  let p := Stream.poll setting false s
  match _h : p.answer with
  | .row v =>
    match make v with
    | .error e => ⟨.error e, p.events ++ p.next.release⟩
    | .ok a =>
      let rest := gather (setting.recordAll p.events) make p.next
      ⟨rest.outcome.cons a, p.events ++ rest.events⟩
  | .error e => ⟨.error e, p.events ++ p.next.release⟩
  | .pending => ⟨.pending, p.events ++ p.next.release⟩
  | .finished => ⟨.ok [], p.events ++ p.next.release⟩
termination_by s.work setting.behavior
decreasing_by
  rw [Setting.behavior_recordAll]
  exact Stream.work_poll_lt_of_row _h

namespace Query

/-- Opens a stream of the query and makes something of each element, until its end or the first
failure. -/
def gather {α : Type} (setting : Setting) (make : Value → Except QueryError α) (q : Query) :
    Gathered α :=
  let g := q.stream.gather setting make
  ⟨g.outcome, q.openEvents ++ g.events⟩

/-- All elements of the query. -/
def collect (setting : Setting) (q : Query) : Gathered Value := q.gather setting .ok

end Query

end RowQuery
