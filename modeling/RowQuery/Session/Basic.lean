import RowQuery.Query.Enumerate
import RowQuery.Session.Named

set_option autoImplicit false

/-! # Sessions

A session is what a program does with queries over time: it defines queries, opens streams of them
under cancellation tokens, polls and drops the streams in any order, and changes how its connections
answer. Several streams may be open at once and share connections, counters and compiled
expressions.

Everything that happens goes into the journal, in order. The counts and logs that can be asked for
are read from the journal; nothing is counted a second time. -/

namespace RowQuery

/-- A connection of the session, and how it answers at present. -/
structure Attached where
  connection : Connection
  behavior : Behavior
  /-- Whether polls of its readers are reported. -/
  scripted : Bool

/-- A stream that is held under a name, and the token it observes. -/
structure OpenStream where
  token : String
  stream : Stream

/-- The state of a session. -/
structure Session where
  connections : Named Attached
  queries : Named Query
  streams : Named OpenStream
  /-- The tokens that have been cancelled. -/
  cancelled : List String
  cache : CompileCache
  journal : List Event
  /-- The counter of each counting source, by name. -/
  counters : Named Nat
  /-- How many counters there are. -/
  counterCount : Nat
  /-- The names under which polls are reported. -/
  polledNames : List String
  /-- The names of the sources that keep a record of the operators handed to them. -/
  absorberNames : List String

namespace Session

/-- A session with the given connections, in which nothing has happened. -/
def new (connections : Named Attached) : Session where
  connections := connections
  queries := []
  streams := []
  cancelled := []
  cache := .empty
  journal := []
  counters := []
  counterCount := 0
  polledNames := (connections.filter (·.2.scripted)).map (·.1)
  absorberNames := []

/-- What a stream sees of the session. -/
def setting (s : Session) : Setting where
  behavior name := ((s.connections.get? name).map (·.behavior)).getD .empty
  cache := s.cache

/-- The session after events have happened. -/
def record (s : Session) (events : List Event) : Session :=
  { s with cache := (s.setting.recordAll events).cache, journal := s.journal ++ events }

/-- Whether a token has been cancelled. -/
def isCancelled (s : Session) (token : String) : Bool := s.cancelled.contains token

/-! ## What the journal says -/

/-- Whether an event opens a stream that reports to `counter`. -/
def opens (counter : Nat) : Event → Bool
  | .opened q => q.counter? == some counter
  | _ => false

/-- Whether an event drops a stream that reports to `counter`. -/
def releases (counter : Nat) : Event → Bool
  | .released c => c == counter
  | _ => false

/-- How many streams that report to `counter` have been opened. -/
def openedBy (journal : List Event) (counter : Nat) : Nat := journal.countP (opens counter)

/-- How many streams that report to `counter` have been dropped. -/
def droppedBy (journal : List Event) (counter : Nat) : Nat := journal.countP (releases counter)

/-- Whether polls of a connection's readers are reported. -/
def isScripted (s : Session) (connection : String) : Bool :=
  (s.connections.get? connection).any (·.scripted)

/-- Whether an event is a poll that is reported under `name`. -/
def polls (s : Session) (name : String) : Event → Bool
  | .polled (.script n) => n == name
  | .polled (.reader n) => n == name && s.isScripted n
  | _ => false

/-- How many polls are reported under `name`. -/
def pollCount (s : Session) (name : String) : Nat := s.journal.countP (s.polls name)

/-- The command of an event, if `connection` executes it. -/
def executedOn? (connection : String) : Event → Option IssuedCommand
  | .executed c command => if c = connection then some command else none
  | _ => none

/-- The commands that a connection has executed, in order. -/
def executed (s : Session) (connection : String) : List IssuedCommand :=
  s.journal.filterMap (executedOn? connection)

/-- The operator of an event, if it is handed to `source`. -/
def handedTo? (source : String) : Event → Option Operator
  | .handed n op => if n = source then some op else none
  | _ => none

/-- The operators that a source has been handed, in order. -/
def handed (s : Session) (source : String) : List Operator :=
  s.journal.filterMap (handedTo? source)

/-- The streams opened and dropped so far, for each name of a counting source. -/
def counts (s : Session) : List (String × Nat × Nat) :=
  s.counters.map (fun (name, c) => (name, openedBy s.journal c, droppedBy s.journal c))

/-- The journal only grows. -/
theorem journal_record (s : Session) (events : List Event) :
    (s.record events).journal = s.journal ++ events := rfl

end Session

end RowQuery
