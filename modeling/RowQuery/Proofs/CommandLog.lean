import RowQuery.Proofs.Beginnings
import RowQuery.Proofs.Journal

set_option autoImplicit false

/-! # The log of a connection

A connection keeps a log of the commands that it has executed. The tables of all queries of a
session may share one connection, and their streams are polled in any order, through any operators.
Still the log says no more and no less than which streams of tables have been polled for the first
time: whatever is done, it grows by the commands of the tables whose streams are polled for the
first time in it (`Session.performs`). To compose queries, to open and to drop streams, to
cancel tokens and to change how connections answer adds nothing.

The connections here are in memory. They never refuse to make a command, and how they answer can be
set at any time.
-/

namespace RowQuery

/-! ## Sessions -/

/-- How a connection in memory answers commands. -/
inductive MemoryBehavior where
  | rows (rows : List Row)
  | fails (text : String)
  /-- No execution completes. -/
  | pending

def MemoryBehavior.behavior : MemoryBehavior → Behavior
  | .rows values => .rows values
  | .fails text => .fail text
  | .pending => .pending

/-- Something that is done in a session. -/
inductive Deed where
  | define (name : String) (plan : Plan)
  | openStream (name : String) (plan : Plan) (token : String)
  | next (name : String)
  | dropStream (name : String)
  | cancel (token : String)
  | setBehavior (connection : String) (behavior : MemoryBehavior)

namespace Session

/-- A session with connections in memory, in which nothing has happened. -/
def inMemory (connections : List (Connection × MemoryBehavior)) : Session :=
  .new (connections.map (fun (c, b) => (c.name, ⟨c, b.behavior, false⟩)))

/-- The session after a deed; one that names something unknown changes nothing. -/
def perform (s : Session) : Deed → Session
  | .define name plan => ((s.define name plan).map (·.2)).getD s
  | .openStream name plan token => ((s.openStream name plan token).map (·.2)).getD s
  | .next name => ((s.next name).map (·.2)).getD s
  | .dropStream name => (s.dropStream name).2
  | .cancel token => s.cancel token
  | .setBehavior connection b => (s.setBehavior connection b.behavior).getD s

/-- The session after some deeds. -/
def run (s : Session) (deeds : List Deed) : Session := deeds.foldl perform s

/-- The tables whose streams are polled for the first time in a deed. -/
def polledBy (s : Session) : Deed → List TableStream
  | .next name =>
    match s.streams.get? name with
    | some held => held.stream.polledFirst s.setting (s.isCancelled held.token)
    | none => []
  | _ => []

/-- What holds of a session between two deeds. -/
structure InMemory (s : Session) : Prop where
  willing : ∀ e ∈ s.connections, e.2.behavior.refusal = none
  atRest : ∀ e ∈ s.streams, e.2.stream.AtRest

/-- A deed keeps this, and makes these entries in the log. -/
structure Performs (s : Session) (polled : List TableStream) (s' : Session) : Prop where
  inMemory : InMemory s'
  executed : ∀ connection, s'.executed connection
    = s.executed connection ++ entries connection polled

theorem InMemory.setting {s : Session} (h : InMemory s) : s.setting.Willing := by
  intro name
  show (((s.connections.get? name).map Attached.behavior).getD Behavior.empty).refusal = none
  cases hname : s.connections.get? name with
  | none => rfl
  | some attached => exact h.willing _ (Named.mem_of_get? hname)

namespace Performs

variable {s s' s'' : Session}

theorem refl (h : InMemory s) : Performs s [] s := by
  refine ⟨h, ?_⟩
  intro connection
  exact (List.append_nil _).symm

theorem trans {polled polled' : List TableStream} (h : Performs s polled s')
    (h' : Performs s' polled' s'') : Performs s (polled ++ polled') s'' := by
  refine ⟨h'.inMemory, ?_⟩
  intro connection
  rw [h'.executed, h.executed, entries_append, List.append_assoc]

/-- What goes into the journal counts. -/
theorem of_events {polled : List TableStream} {events : List Event} (h : InMemory s')
    (hjournal : s'.journal = s.journal ++ events)
    (hevents : ∀ connection, executedIn connection events = entries connection polled) :
    Performs s polled s' := by
  refine ⟨h, ?_⟩
  intro connection
  show executedIn connection s'.journal = executedIn connection s.journal ++ _
  rw [hjournal, executedIn_append, hevents]

/-- To compose queries adds nothing to the log. -/
theorem composed (h : InMemory s) (hs : Composed s s') : Performs s [] s' := by
  obtain ⟨hstreams, hconnections, events, hjournal, hevents⟩ := hs
  refine of_events ⟨?_, ?_⟩ hjournal ?_
  · rw [hconnections]
    exact h.willing
  · rw [hstreams]
    exact h.atRest
  · intro connection
    apply executedIn_eq_nil
    intro e he
    obtain ⟨source, op, rfl⟩ := hevents e he
    rfl

theorem dropStream (h : InMemory s) (name : String) : Performs s [] (s.dropStream name).2 := by
  unfold Session.dropStream
  cases hname : s.streams.get? name with
  | none => exact refl h
  | some held =>
      refine of_events ⟨h.willing, ?_⟩ rfl (fun connection => executedIn_release connection _)
      intro e he
      exact h.atRest e (Named.of_mem_erase he)

/-- A stream is held under a name. -/
theorem put (h : InMemory s) (name : String) {held : OpenStream} (hheld : held.stream.AtRest) :
    Performs s [] { s with streams := s.streams.set name held } := by
  refine ⟨⟨h.willing, ?_⟩, (refl h).executed⟩
  intro e he
  rcases Named.of_mem_set he with rfl | he
  · exact hheld
  · exact h.atRest e he

theorem define (h : InMemory s) {name : String} {plan : Plan} {q : Query}
    (hdefine : s.define name plan = some (q, s')) : Performs s [] s' := by
  obtain ⟨⟨q', between⟩, hbuild, heq⟩ := Option.bind_eq_some_iff.mp hdefine
  cases heq
  obtain ⟨⟨hwilling, hatRest⟩, hexecuted⟩ := composed h (composed_build hbuild)
  exact ⟨⟨hwilling, hatRest⟩, hexecuted⟩

theorem openStream (h : InMemory s) {name token : String} {plan : Plan} {q : Query}
    (hopen : s.openStream name plan token = some (q, s')) : Performs s [] s' := by
  obtain ⟨⟨q', between⟩, hbuild, heq⟩ := Option.bind_eq_some_iff.mp hopen
  cases heq
  have hcomposed := composed h (composed_build hbuild)
  have hopened : Performs between [] (between.record q.openEvents) :=
    of_events ⟨hcomposed.inMemory.willing, hcomposed.inMemory.atRest⟩ rfl
      (fun connection => executedIn_openEvents connection q)
  have hdropped := dropStream hopened.inMemory name
  exact ((hcomposed.trans hopened).trans hdropped).trans
    (put hdropped.inMemory name (Stream.atRest_stream q))

theorem next (h : InMemory s) {name : String} {answer : Answer}
    (hnext : s.next name = some (answer, s')) : Performs s (s.polledBy (.next name)) s' := by
  obtain ⟨held, hname, heq⟩ := Option.bind_eq_some_iff.mp hnext
  cases heq
  have hheld := h.atRest _ (Named.mem_of_get? hname)
  have hpoll := Stream.atRest_poll s.setting (s.isCancelled held.token) hheld.toOrderly
  have hput : Performs s [] { s with streams := s.streams.set name ⟨held.token, _⟩ } :=
    put h name hpoll
  refine of_events ⟨hput.inMemory.willing, hput.inMemory.atRest⟩ rfl ?_
  intro connection
  rw [polledBy, hname]
  exact Stream.executedIn_poll s.setting h.setting connection _ _

theorem setBehavior (h : InMemory s) {connection : String} {b : MemoryBehavior}
    (hset : s.setBehavior connection b.behavior = some s') : Performs s [] s' := by
  obtain ⟨attached, -, heq⟩ := Option.bind_eq_some_iff.mp hset
  cases heq
  refine ⟨⟨?_, h.atRest⟩, (refl h).executed⟩
  intro e he
  rcases Named.of_mem_set he with rfl | he
  · cases b <;> rfl
  · exact h.willing e he

end Performs

/-- **In every deed the log of a connection grows by the tables that are polled for the first
time.**
-/
theorem performs {s : Session} (h : InMemory s) (d : Deed) :
    Performs s (s.polledBy d) (s.perform d) := by
  cases d with
  | define name plan =>
      rw [perform]
      cases hdefine : s.define name plan with
      | none => exact .refl h
      | some result => exact .define h hdefine
  | openStream name plan token =>
      rw [perform]
      cases hopen : s.openStream name plan token with
      | none => exact .refl h
      | some result => exact .openStream h hopen
  | next name =>
      rw [perform]
      cases hnext : s.next name with
      | none =>
          -- there is no stream of that name
          have hname : s.streams.get? name = none := by
            rw [Session.next, Option.bind_eq_bind, Option.bind_eq_none_iff] at hnext
            rw [Option.eq_none_iff_forall_ne_some]
            intro held hheld
            exact absurd (hnext held hheld) (by simp)
          rw [polledBy, hname]
          exact .refl h
      | some result => exact .next h hnext
  | dropStream name => exact .dropStream h name
  | cancel token => exact ⟨⟨h.willing, h.atRest⟩, (Performs.refl h).executed⟩
  | setBehavior connection b =>
      rw [perform]
      cases hset : s.setBehavior connection b.behavior with
      | none => exact .refl h
      | some s' => exact .setBehavior h hset

theorem inMemory_new (connections : List (Connection × MemoryBehavior)) :
    InMemory (inMemory connections) := by
  refine ⟨?_, ?_⟩
  · intro e he
    obtain ⟨⟨c, b⟩, -, rfl⟩ := List.mem_map.mp he
    cases b <;> rfl
  · intro e he
    cases he

theorem inMemory_run {s : Session} (h : InMemory s) (deeds : List Deed) :
    InMemory (s.run deeds) := by
  induction deeds generalizing s with
  | nil => exact h
  | cons d rest ih => exact ih (performs h d).inMemory

end Session

/-! ## The log -/

/-- **A connection executes one command for every table that is polled.** Whatever is done in a
session with connections in memory, the logs only grow: by the entries of the tables whose streams
are polled for the first time in a deed, in this order. A poll that does not find its token
cancelled polls for the first time each table whose stream has been waiting for it or is opened on
the way; after the cancellation there is none; and no poll leaves one waiting. On the inner side of
a join there are as many as rows that it takes from its outer side. What a table delivers is what
the connection answers at this first poll: in a poll in which no table is polled for the first time
it does not matter how connections answer. -/
theorem log_grows_with_first_polls (connections : List (Connection × MemoryBehavior))
    (deeds : List Deed) :
    (∀ (d : Deed) (connection : String),
      ((Session.inMemory connections).run (deeds ++ [d])).executed connection
        = ((Session.inMemory connections).run deeds).executed connection
          ++ entries connection (((Session.inMemory connections).run deeds).polledBy d)) ∧
    (∀ (name : String) (held : OpenStream),
      ((Session.inMemory connections).run deeds).streams.get? name = some held →
      ∀ setting : Setting, setting.Willing →
        held.stream.polledFirst setting false = held.stream.unpolled false
          ++ (held.stream.opened setting false).flatMap Opening.tables ∧
        held.stream.polledFirst setting true = [] ∧
        ∀ token : Bool,
          (Stream.poll setting token held.stream).next.unpolled false = [] ∧
          (Stream.poll setting token held.stream).events.filter Event.isOpening
            = (held.stream.opened setting token).flatMap (·.query.openEvents) ∧
          ((held.stream.polledFirst setting token).filter (·.perRow)).map (·.table)
            = ((held.stream.opened setting token).filter (·.perRow)).filterMap
                (·.query.table?)) ∧
    (∀ q : Query, q.stream.unpolled false = (q.table?.map (⟨·, false⟩)).toList) ∧
    (∀ (q : SqlQuery) (source : TableSource), q.node.root = .ok source → ∀ first : Setting,
      Brings (fun later => (Query.sql q).answersUnder (first :: later))
        (tableResults source.table.columnNames q.prepare
          (first.behavior source.connection.name))) ∧
    ∀ (s : Stream) (setting setting' : Setting) (token : Bool),
      s.polledFirst setting token = [] →
      (Stream.poll setting token s).answer = (Stream.poll setting' token s).answer ∧
        (Stream.poll setting token s).next = (Stream.poll setting' token s).next := by
  have hmemory : ((Session.inMemory connections).run deeds).InMemory :=
    Session.inMemory_run (Session.inMemory_new connections) deeds
  refine ⟨?_, ?_, fun q => Stream.unpolled_stream q false,
    fun q source hroot first => SqlQuery.brings_first hroot first, ?_⟩
  · intro d connection
    rw [Session.run, List.foldl_append]
    exact (Session.performs hmemory d).executed connection
  · intro name held hname setting hwilling
    have hheld := hmemory.atRest _ (Named.mem_of_get? hname)
    refine ⟨(Stream.polledFirst_live setting hheld.toOrderly).1,
      (Stream.polledFirst_cancelled setting hheld.toOrderly).1, ?_⟩
    intro token
    exact ⟨Stream.unpolled_poll setting token hheld.toOrderly,
      Stream.filter_isOpening_poll setting hwilling token held.stream,
      Stream.perRow_polledFirst setting token hheld⟩
  · intro s setting setting' token h
    exact Stream.poll_alike token s setting setting' (.inl h)

/-- Two outer rows, two commands; polling after the end adds none. -/
example :
    (((Session.inMemory [(⟨"c", .ansi, .positional⟩, .rows [[.int64 7]])]).run
      ([.openStream "s" (.innerJoin (.source (.values [.int64 1, .int64 2]))
          (.table "c" ⟨none, "t", [⟨"x", .int64⟩]⟩ none) (.constant (.boolean true))
          (.argument 1)) "token"]
        ++ List.replicate 5 (.next "s"))).executed "c").map (·.text)
      = ["SELECT \"x\" FROM \"t\"", "SELECT \"x\" FROM \"t\""] := by
  decide +kernel

end RowQuery
