import RowQuery.Query.Round

set_option autoImplicit false

/-! # Streams

A stream is the state of one enumeration of a query. It is a tree: the stream of an operator holds
the streams of its inputs, once it has opened them, and drops them when it ends.

`Stream.step` is one round of a stream. It is defined by recursion on the tree, so what an operator
does in a round is said in one place, in terms of what a round of its input comes to:

* a *filter* passes on the elements on which its predicate holds;
* a *projection* maps every element;
* a *join* takes an element of its outer stream, opens a new inner stream for it, and answers with
  the combinations of the matches until the inner stream ends;
* a *table* issues its command when it is first polled, waits for the execution, and reads rows.

All four close on the first error and at the end, and drop the streams that they hold before they
answer. All streams of one tree observe one cancellation token. A stream of an operator looks at it
at the start of every round; the other streams rely on the `cancellable` adapter around them, or
disregard it. -/

namespace RowQuery

/-- The state of one enumeration. -/
inductive Stream where
  | values (rest : List Value)
  | script (name : String) (rest : List (Item Value))
  | stalled
  | failing (e : Option QueryError)
  | counting (counter : Nat) (inner : Stream)
  /-- Ends as soon as the token is cancelled, and for good when `inner` ends. -/
  | cancellable (inner : Stream)
  | filterIdle (input : Query) (predicate : Expr)
  | filterOpen (predicate : CompiledExpr) (input : Stream)
  | projectIdle (input : Query) (projection : Expr)
  | projectOpen (projection : CompiledExpr) (input : Stream)
  | joinIdle (outer inner : Query) (condition combine : Expr)
  /-- Waiting for the next outer element. -/
  | joinOuter (inner : Query) (condition combine : CompiledExpr) (outer : Stream)
  /-- Going through the inner elements for one outer element. -/
  | joinInner (inner : Query) (condition combine : CompiledExpr) (outer : Stream) (row : Value)
      (current : Stream)
  | sqlIdle (q : SqlQuery)
  | sqlExecuting (columns : List String) (connection : String) (delay : Nat) (reply : Reply)
  | sqlReading (columns : List String) (connection : String) (rest : List (Item Row))
  /-- Has ended and holds nothing. -/
  | closed

/-! ## Opening and dropping -/

namespace Query

/-- A new enumeration of the query, before it is polled. -/
def stream : Query → Stream
  | .values rows => .cancellable (.values rows)
  | .script name items observesToken =>
    if observesToken then .cancellable (.script name items) else .script name items
  | .stalled => .stalled
  | .failing e => .failing (some e)
  | .counting counter input => .counting counter (stream input)
  | .absorbing _ _ _ input => stream input
  | .declining _ input => stream input
  | .sql q => .cancellable (.sqlIdle q)
  | .localFilter input p => .filterIdle input p
  | .localProject input e => .projectIdle input e
  | .localJoin outer inner condition combine => .joinIdle outer inner condition combine

/-- What is opened at once inside a new stream of the query. Only a counting source opens a stream
of its input inside its own; the stream of a source that takes operators is that of its input. -/
def openedInside : Query → List Event
  | .counting _ input => .opened input :: openedInside input
  | .absorbing _ _ _ input => openedInside input
  | .declining _ input => openedInside input
  | _ => []

/-- What happens when a stream of the query is opened. -/
def openEvents (q : Query) : List Event := .opened q :: q.openedInside

/-- The counter that is told of the streams of the query themselves. -/
def counter? : Query → Option Nat
  | .counting counter _ => some counter
  | .absorbing _ _ _ input => counter? input
  | .declining _ input => counter? input
  | _ => none

end Query

namespace Stream

/-- The counters of the counting streams that a stream holds, itself included. -/
def counters : Stream → List Nat
  | .counting counter inner => counter :: counters inner
  | .cancellable inner => counters inner
  | .filterOpen _ input => counters input
  | .projectOpen _ input => counters input
  | .joinOuter _ _ _ outer => counters outer
  | .joinInner _ _ _ outer _ current => counters outer ++ counters current
  | _ => []

/-- What happens when a stream is dropped. -/
def release (s : Stream) : List Event := s.counters.map .released

/-! ## One round -/

/-- A round of an input ends the stream that holds it: the input is dropped before the answer. -/
def close (r : Round Stream) (answer : Answer) : Round Stream :=
  ⟨some answer, .closed, r.events ++ r.next.release⟩

/-- A stream is dropped because of the token. -/
def cancelled (s : Stream) : Round Stream := ⟨some .finished, .closed, s.release⟩

/-- The adapter that observes the token, as a stream: without a stream inside it is closed. -/
def adapter : Option Stream → Stream
  | some inner => .cancellable inner
  | none => .closed

/-- A filter goes on after a round of its input. -/
def filterNext (predicate : CompiledExpr) (r : Round Stream) : Round Stream :=
  let stay (answer : Option Answer) : Round Stream :=
    ⟨answer, .filterOpen predicate r.next, r.events⟩
  match r.answer with
  | none => stay none
  | some .pending => stay (some .pending)
  | some .finished => close r .finished
  | some (.error e) => close r (.error e)
  | some (.row v) =>
    match predicate.evalPredicate [v] with
    | .ok true => stay (some (.row v))
    | .ok false => stay none
    | .error e => close r (.error (.evaluation e))

/-- A projection goes on after a round of its input. -/
def projectNext (projection : CompiledExpr) (r : Round Stream) : Round Stream :=
  let stay (answer : Option Answer) : Round Stream :=
    ⟨answer, .projectOpen projection r.next, r.events⟩
  match r.answer with
  | none => stay none
  | some .pending => stay (some .pending)
  | some .finished => close r .finished
  | some (.error e) => close r (.error e)
  | some (.row v) =>
    match projection.eval [v] with
    | .ok w => stay (some (.row w))
    | .error e => close r (.error (.evaluation e))

/-- A join goes on after a round of its outer stream: an element starts a new inner stream. -/
def joinOuterNext (inner : Query) (condition combine : CompiledExpr) (r : Round Stream) :
    Round Stream :=
  let stay (answer : Option Answer) : Round Stream :=
    ⟨answer, .joinOuter inner condition combine r.next, r.events⟩
  match r.answer with
  | none => stay none
  | some .pending => stay (some .pending)
  | some .finished => close r .finished
  | some (.error e) => close r (.error e)
  | some (.row v) =>
    ⟨none, .joinInner inner condition combine r.next v (.cancellable inner.stream),
      r.events ++ inner.openEvents⟩

/-- The combination of two elements, if they match. -/
def matched (condition combine : CompiledExpr) (outerRow innerRow : Value) :
    Except EvalError (Option Value) := do
  if ← condition.evalPredicate [outerRow, innerRow] then
    return some (← combine.eval [outerRow, innerRow])
  else return none

/-- A join goes on after a round of its inner stream. Where it closes, the outer stream is dropped
too, after the inner one. -/
def joinInnerNext (inner : Query) (condition combine : CompiledExpr) (outer : Stream) (row : Value)
    (r : Round Stream) : Round Stream :=
  let stay (answer : Option Answer) : Round Stream :=
    ⟨answer, .joinInner inner condition combine outer row r.next, r.events⟩
  let close (answer : Answer) : Round Stream :=
    ⟨some answer, .closed, r.events ++ r.next.release ++ outer.release⟩
  match r.answer with
  | none => stay none
  | some .pending => stay (some .pending)
  | some .finished =>
    ⟨none, .joinOuter inner condition combine outer, r.events ++ r.next.release⟩
  | some (.error e) => close (.error e)
  | some (.row v) =>
    match matched condition combine row v with
    | .ok (some w) => stay (some (.row w))
    | .ok none => stay none
    | .error e => close (.error (.evaluation e))

/-- The first round of a table: its command is rendered and given to the connection. -/
def sqlStart (setting : Setting) (q : SqlQuery) : Round Stream :=
  match q.command with
  | .error e => ⟨some (.error e), .closed, []⟩
  | .ok (connection, command) =>
    let name := connection.name
    let behavior := setting.behavior name
    match behavior.refusal with
    | some e => ⟨some (.error e), .closed, [.requested name]⟩
    | none =>
      ⟨none, .sqlExecuting q.columns name behavior.delay behavior.reply,
        [.requested name, .executed name command]⟩

/-- A row as an element: the columns paired with the values, which must be as many. -/
def labelled (columns : List String) (row : Row) : Except QueryError Value :=
  if row.length = columns.length then .ok (.struct (columns.zip row))
  else .error (.rowWidth columns.length row.length)

/-- The next entry of a reader's script. -/
def sqlNext (columns : List String) (connection : String) : List (Item Row) → Round Stream
  | [] => ⟨some .finished, .closed, [.polled (.reader connection)]⟩
  | .pending :: rest =>
    ⟨some .pending, .sqlReading columns connection rest, [.polled (.reader connection)]⟩
  | .error e :: _ => ⟨some (.error e), .closed, [.polled (.reader connection)]⟩
  | .value row :: rest =>
    match labelled columns row with
    | .ok v => ⟨some (.row v), .sqlReading columns connection rest, [.polled (.reader connection)]⟩
    | .error e => ⟨some (.error e), .closed, [.polled (.reader connection)]⟩

/-- The next entry of a script of elements. -/
def scriptNext (name : String) : List (Item Value) → Round Stream
  | [] => ⟨some .finished, .script name [], [.polled (.script name)]⟩
  | .value v :: rest => ⟨some (.row v), .script name rest, [.polled (.script name)]⟩
  | .error e :: rest => ⟨some (.error e), .script name rest, [.polled (.script name)]⟩
  | .pending :: rest => ⟨some .pending, .script name rest, [.polled (.script name)]⟩

/-- One round of a stream. -/
def step (setting : Setting) (token : Bool) : Stream → Round Stream
  | .values [] => ⟨some .finished, .values [], [.polled .values]⟩
  | .values (v :: rest) => ⟨some (.row v), .values rest, [.polled .values]⟩
  | .script name items => scriptNext name items
  | .stalled => ⟨some .pending, .stalled, [.polled .stalled]⟩
  | .failing none => ⟨some .finished, .failing none, [.polled .failing]⟩
  | .failing (some e) => ⟨some (.error e), .failing none, [.polled .failing]⟩
  | .counting counter inner =>
    (step setting token inner).map (.counting counter)
  | .cancellable inner =>
    (Cancellable.around release token inner (fun _ => step setting token inner)).map adapter
  | .filterIdle input p =>
    if token then ⟨some .finished, .closed, []⟩
    else
      match setting.compile p 1 with
      | (.error e, events) => ⟨some (.error (.evaluation e)), .closed, events⟩
      | (.ok c, events) =>
        ⟨none, .filterOpen c (.cancellable input.stream), events ++ input.openEvents⟩
  | .filterOpen c input =>
    if token then cancelled input else filterNext c (step setting token input)
  | .projectIdle input e =>
    if token then ⟨some .finished, .closed, []⟩
    else
      match setting.compile e 1 with
      | (.error err, events) => ⟨some (.error (.evaluation err)), .closed, events⟩
      | (.ok c, events) =>
        ⟨none, .projectOpen c (.cancellable input.stream), events ++ input.openEvents⟩
  | .projectOpen c input =>
    if token then cancelled input else projectNext c (step setting token input)
  | .joinIdle outer inner condition combine =>
    if token then ⟨some .finished, .closed, []⟩
    else
      match setting.compileBoth condition combine 2 with
      | (.error e, events) => ⟨some (.error (.evaluation e)), .closed, events⟩
      | (.ok (c, d), events) =>
        ⟨none, .joinOuter inner c d (.cancellable outer.stream), events ++ outer.openEvents⟩
  | .joinOuter inner c d outer =>
    if token then cancelled outer else joinOuterNext inner c d (step setting token outer)
  | .joinInner inner c d outer row current =>
    if token then ⟨some .finished, .closed, outer.release ++ current.release⟩
    else joinInnerNext inner c d outer row (step setting token current)
  | .sqlIdle q => sqlStart setting q
  | .sqlExecuting columns connection (delay + 1) reply =>
    ⟨some .pending, .sqlExecuting columns connection delay reply, []⟩
  | .sqlExecuting columns connection 0 .never =>
    ⟨some .pending, .sqlExecuting columns connection 0 .never, []⟩
  | .sqlExecuting _ _ 0 (.fails e) => ⟨some (.error e), .closed, []⟩
  | .sqlExecuting columns connection 0 (.reader rows) =>
    ⟨none, .sqlReading columns connection rows, []⟩
  | .sqlReading columns connection rows => sqlNext columns connection rows
  | .closed => ⟨some .finished, .closed, []⟩

end Stream

end RowQuery
