import RowQuery.Proofs.Reading
import RowQuery.Proofs.Sifting
import RowQuery.Session.Basic

set_option autoImplicit false

/-! # What a poll begins

Two kinds of events begin something: a stream is opened, or a connection executes a command. Where
no connection refuses to make a command, the events of both kinds in a round are known from the
stream alone (`Stream.begun_step`). The commands are those of the table that the round polls for the
first time, the streams are those of `Stream.openings`. So a poll executes one command for each
table that it polls for the first time and can be rendered (`Stream.executedIn_poll`).
-/

namespace RowQuery

/-- Whether an event begins something. -/
def Event.begins : Event → Bool
  | .opened _ => true
  | .executed .. => true
  | _ => false

/-- Whether an event opens a stream. -/
def Event.isOpening : Event → Bool
  | .opened _ => true
  | _ => false

/-- The events that begin something, among others. -/
def begun (events : List Event) : List Event := events.filter Event.begins

/-- The commands that a connection executes, among other events. -/
def executedIn (connection : String) (events : List Event) : List IssuedCommand :=
  events.filterMap (Session.executedOn? connection)

/-- The execution of the command of a query, if it can be rendered: its text and its parameters,
with the timeout of the query, by the connection at its root. -/
def SqlQuery.execution (q : SqlQuery) : List Event :=
  match q.node.root, q.prepare with
  | .ok source, .ok prepared => [.executed source.connection.name (q.issued prepared)]
  | _, _ => []

/-- The entries that some tables make in the log of a connection. -/
def entries (connection : String) (tables : List TableStream) : List IssuedCommand :=
  executedIn connection (tables.flatMap (·.table.execution))

/-- No connection refuses to make a command. -/
def Setting.Willing (setting : Setting) : Prop :=
  ∀ name, (setting.behavior name).refusal = none

/-! ## Lists of events -/

theorem begun_eq_nil {events : List Event} (h : ∀ e ∈ events, e.begins = false) :
    begun events = [] := by
  apply List.filter_eq_nil_iff.mpr
  intro e he
  rw [h e he]
  exact Bool.false_ne_true

theorem sifts_begins : Sifts Event.begins := ⟨fun _ => rfl, fun _ => rfl, fun _ => rfl⟩

theorem sifts_isOpening : Sifts Event.isOpening := ⟨fun _ => rfl, fun _ => rfl, fun _ => rfl⟩

theorem executedIn_append (connection : String) (events more : List Event) :
    executedIn connection (events ++ more)
      = executedIn connection events ++ executedIn connection more :=
  List.filterMap_append

theorem executedIn_eq_nil {connection : String} {events : List Event}
    (h : ∀ e ∈ events, Session.executedOn? connection e = none) :
    executedIn connection events = [] :=
  List.filterMap_eq_nil_iff.mpr h

theorem executedIn_release (connection : String) (s : Stream) :
    executedIn connection s.release = [] := by
  apply executedIn_eq_nil
  intro e he
  obtain ⟨counter, -, rfl⟩ := List.mem_map.mp he
  rfl

/-- To open a stream executes nothing, not even where it is the stream of a table. -/
theorem executedIn_openEvents (connection : String) (q : Query) :
    executedIn connection q.openEvents = [] := by
  induction q with
  | counting counter input ih => exact ih
  | absorbing name supported refusal input ih => exact ih
  | declining supported input ih => exact ih
  | _ => rfl

theorem entries_append (connection : String) (tables more : List TableStream) :
    entries connection (tables ++ more) = entries connection tables ++ entries connection more := by
  rw [entries, List.flatMap_append, executedIn_append]
  rfl

namespace Stream

/-! ## Rounds -/

/-- What begins in a round that polls these tables for the first time and opens streams of these
queries. -/
def beginnings (tables : List TableStream) (openings : List Opening) : List Event :=
  tables.flatMap (·.table.execution) ++ openings.flatMap (·.query.openEvents)

/-- The input of an operator is opened when its expressions have been compiled. -/
theorem begun_opening {events : List Event} (h : ∀ e ∈ events, ∃ cell, e = .compiled cell)
    (input : Query) : begun (events ++ input.openEvents) = beginnings [] [⟨input, false⟩] :=
  (sifts_begins.filter_opening h input).trans (List.append_nil _).symm

theorem begun_isLeaf (setting : Setting) (token : Bool) {s : Stream} (h : s.isLeaf = true) :
    begun (step setting token s).events = [] := by
  apply begun_eq_nil
  intro e he
  obtain ⟨leaf, rfl⟩ := (step_isLeaf setting token h).2 e he
  rfl

/-- A table begins with the execution of its command. -/
theorem begun_sqlIdle {setting : Setting} (h : setting.Willing) (token : Bool) (q : SqlQuery) :
    begun (step setting token (.sqlIdle q)).events = q.execution := by
  obtain ⟨source, hroot⟩ := q.node.exists_root
  cases hprepare : q.prepare with
  | error e =>
      rw [step_sqlIdle_of_error setting token hprepare, SqlQuery.execution, hroot, hprepare]
      rfl
  | ok prepared =>
      rw [step_sqlIdle_of_ok token hroot hprepare (h _), SqlQuery.execution, hroot, hprepare]
      rfl

/-- **A round begins with the table that it polls for the first time, and opens the streams that it
has to open.** -/
theorem begun_step {setting : Setting} (h : setting.Willing) (token perRow : Bool) (s : Stream) :
    begun (step setting token s).events
      = beginnings (s.firstPolls token perRow) (s.openings setting token) := by
  induction s generalizing perRow with
  | counting counter inner ih => exact ih perRow
  | cancellable inner ih =>
      cases token with
      | true => exact sifts_begins.filter_release inner
      | false => exact (sifts_begins.filter_around _ inner).trans (ih perRow)
  | filterIdle input p =>
      cases token with
      | true => rfl
      | false =>
          have hcompiled : ∀ e ∈ (setting.compile p 1).2, ∃ cell, e = .compiled cell :=
            fun _ => Setting.compiled_of_mem_compile
          rw [step, openings, if_neg Bool.false_ne_true, if_neg Bool.false_ne_true]
          generalize setting.compile p 1 = result at hcompiled ⊢
          rcases result with ⟨err | c, events⟩
          · exact sifts_begins.filter_compiled hcompiled
          · exact begun_opening hcompiled input
  | filterOpen c input ih =>
      cases token with
      | true => exact sifts_begins.filter_release input
      | false => exact (sifts_begins.filter_filterNext _ c).trans (ih false)
  | projectIdle input e =>
      cases token with
      | true => rfl
      | false =>
          have hcompiled : ∀ event ∈ (setting.compile e 1).2, ∃ cell, event = .compiled cell :=
            fun _ => Setting.compiled_of_mem_compile
          rw [step, openings, if_neg Bool.false_ne_true, if_neg Bool.false_ne_true]
          generalize setting.compile e 1 = result at hcompiled ⊢
          rcases result with ⟨err | c, events⟩
          · exact sifts_begins.filter_compiled hcompiled
          · exact begun_opening hcompiled input
  | projectOpen c input ih =>
      cases token with
      | true => exact sifts_begins.filter_release input
      | false => exact (sifts_begins.filter_projectNext _ c).trans (ih false)
  | joinIdle outer inner condition combine =>
      cases token with
      | true => rfl
      | false =>
          have hcompiled : ∀ e ∈ (setting.compileBoth condition combine 2).2,
              ∃ cell, e = .compiled cell :=
            fun _ => Setting.compiled_of_mem_compileBoth
          rw [step, openings, if_neg Bool.false_ne_true, if_neg Bool.false_ne_true]
          generalize setting.compileBoth condition combine 2 = result at hcompiled ⊢
          rcases result with ⟨err | c, events⟩
          · exact sifts_begins.filter_compiled hcompiled
          · exact begun_opening hcompiled outer
  | joinOuter inner c d outer ih =>
      cases token with
      | true => exact sifts_begins.filter_release outer
      | false =>
          rw [step, if_neg Bool.false_ne_true, begun, sifts_begins.filter_joinOuterNext, ← begun,
            ih false]
          show _ = List.flatMap _ _ ++ List.flatMap _ (openings setting false outer ++ _)
          rw [List.flatMap_append, ← List.append_assoc]
          rfl
  | joinInner inner c d outer row current _ ih =>
      cases token with
      | true =>
          show (outer.release ++ current.release).filter _ = []
          rw [sifts_begins.filter_append_release, sifts_begins.filter_release]
      | false => exact (sifts_begins.filter_joinInnerNext _ inner c d outer row).trans (ih true)
  | sqlIdle q =>
      rw [begun_sqlIdle h]
      show q.execution = (q.execution ++ []) ++ []
      rw [List.append_nil, List.append_nil]
  | _ => exact begun_isLeaf setting token rfl

/-! ## Polls -/

/-- Of what a round begins, the tables make the entries. -/
theorem executedIn_beginnings (connection : String) (tables : List TableStream)
    (openings : List Opening) :
    executedIn connection (beginnings tables openings) = entries connection tables := by
  have hopenings : executedIn connection (openings.flatMap (·.query.openEvents)) = [] := by
    induction openings with
    | nil => rfl
    | cons o rest ih =>
        rw [List.flatMap_cons, executedIn_append, executedIn_openEvents, ih]
        rfl
  rw [beginnings, executedIn_append, hopenings, List.append_nil]
  rfl

/-- The other part are the streams that are opened. -/
theorem filter_isOpening_beginnings (tables : List TableStream) (openings : List Opening) :
    (beginnings tables openings).filter Event.isOpening
      = openings.flatMap (·.query.openEvents) := by
  have hexecution : ∀ q : SqlQuery, q.execution.filter Event.isOpening = [] := by
    intro q
    rw [SqlQuery.execution]
    split <;> rfl
  rw [beginnings, List.filter_append, List.filter_flatMap, List.filter_flatMap]
  simp only [hexecution, sifts_isOpening.filter_openEvents,
    List.flatMap_eq_nil_iff.mpr (fun _ _ => rfl), List.nil_append]

theorem executedIn_step {setting : Setting} (h : setting.Willing) (connection : String)
    (token perRow : Bool) (s : Stream) :
    executedIn connection (step setting token s).events
      = entries connection (s.firstPolls token perRow) := by
  -- only what begins something can be the execution of a command
  have hbegun : ∀ events, executedIn connection (begun events) = executedIn connection events := by
    intro events
    rw [executedIn, begun, List.filterMap_filter]
    congr 1
    funext e
    cases e <;> rfl
  rw [← hbegun, begun_step h token perRow, executedIn_beginnings]

theorem filter_isOpening_step {setting : Setting} (h : setting.Willing) (token : Bool)
    (s : Stream) :
    (step setting token s).events.filter Event.isOpening
      = (s.openings setting token).flatMap (·.query.openEvents) := by
  have hbegun : ∀ events,
      (begun events).filter Event.isOpening = events.filter Event.isOpening := by
    intro events
    rw [begun, List.filter_filter]
    congr 1
    funext e
    cases e <;> rfl
  rw [← hbegun, begun_step h token false, filter_isOpening_beginnings]

/-- A poll executes the commands of the tables that it polls for the first time. -/
theorem executedIn_poll (setting : Setting) (h : setting.Willing) (connection : String)
    (token : Bool) (s : Stream) :
    executedIn connection (poll setting token s).events
      = entries connection (polledFirst setting token s) := by
  fun_induction poll setting token s with
  | case1 setting s answer next events hs =>
      have hround := executedIn_step h connection token false s
      rw [hs] at hround
      rw [polledFirst_of_step_some hs]
      exact hround
  | case2 setting s next events hs rest ih =>
      have hround := executedIn_step h connection token false s
      rw [hs] at hround
      have hrest := ih (by rw [Setting.Willing, Setting.behavior_recordAll]; exact h)
      calc executedIn connection (events ++ rest.events)
          = executedIn connection events ++ executedIn connection rest.events :=
            executedIn_append connection events rest.events
        _ = entries connection (s.firstPolls token false)
              ++ entries connection (polledFirst (setting.recordAll events) token next) := by
            rw [hround, hrest]
        _ = entries connection (polledFirst setting token s) := by
            rw [polledFirst_of_step_none hs, entries_append]

/-- The streams that a poll opens are those that it reports. -/
theorem filter_isOpening_poll (setting : Setting) (h : setting.Willing) (token : Bool)
    (s : Stream) :
    (poll setting token s).events.filter Event.isOpening
      = (opened setting token s).flatMap (·.query.openEvents) := by
  fun_induction poll setting token s with
  | case1 setting s answer next events hs =>
      have hround := filter_isOpening_step h token s
      rw [hs] at hround
      rw [opened_of_step_some hs]
      exact hround
  | case2 setting s next events hs rest ih =>
      have hround := filter_isOpening_step h token s
      rw [hs] at hround
      have hrest := ih (by rw [Setting.Willing, Setting.behavior_recordAll]; exact h)
      rw [opened_of_step_none hs, List.flatMap_append, List.filter_append, hround, hrest]

end Stream

end RowQuery
