import RowQuery.Proofs.Beginnings

set_option autoImplicit false

/-! # The commands that a query can execute

A stream executes no commands but those of the tables at the leaves of its query, each by the
connection of its table (`Stream.confined_pollAll`). This holds of every schedule, whatever
connections answer. The tables that a stream has not opened yet count as its own from the start, so
that no round can add one (`Stream.confined_step`).
-/

namespace RowQuery

/-- The tables at the leaves of a query. -/
def Query.tables : Query → List SqlQuery
  | .sql q => [q]
  | .counting _ input => tables input
  | .absorbing _ _ _ input => tables input
  | .declining _ input => tables input
  | .localFilter input _ => tables input
  | .localProject input _ => tables input
  | .localJoin outer inner _ _ => tables outer ++ tables inner
  | _ => []

/-- The tables whose commands a stream may still execute. -/
def Stream.tables : Stream → List SqlQuery
  | .sqlIdle q => [q]
  | .counting _ inner => tables inner
  | .cancellable inner => tables inner
  | .filterIdle input _ => input.tables
  | .filterOpen _ input => tables input
  | .projectIdle input _ => input.tables
  | .projectOpen _ input => tables input
  | .joinIdle outer inner _ _ => outer.tables ++ inner.tables
  | .joinOuter inner _ _ outer => tables outer ++ inner.tables
  | .joinInner inner _ _ outer _ current => tables outer ++ inner.tables ++ tables current
  | _ => []

/-- All commands that are executed are those of some tables, each by the connection of the table. -/
def IssuedFor (tables : List SqlQuery) (events : List Event) : Prop :=
  ∀ name, ∀ issued ∈ executedIn name events,
    ∃ t ∈ tables, ∃ c : Connection, c.name = name ∧ t.command = .ok (c, issued)

namespace IssuedFor

variable {tables more : List SqlQuery} {events later : List Event}

theorem append (h : IssuedFor tables events) (h' : IssuedFor tables later) :
    IssuedFor tables (events ++ later) := by
  intro name issued hissued
  rw [executedIn_append, List.mem_append] at hissued
  rcases hissued with hissued | hissued
  · exact h name issued hissued
  · exact h' name issued hissued

theorem mono (h : IssuedFor tables events) (hmore : ∀ t ∈ tables, t ∈ more) :
    IssuedFor more events := by
  intro name issued hissued
  obtain ⟨t, ht, hcommand⟩ := h name issued hissued
  exact ⟨t, hmore t ht, hcommand⟩

theorem of_nil (h : ∀ name, executedIn name events = []) : IssuedFor tables events := by
  intro name issued hissued
  rw [h name] at hissued
  cases hissued

theorem release (s : Stream) : IssuedFor tables s.release :=
  of_nil (fun name => executedIn_release name s)

theorem openEvents (q : Query) : IssuedFor tables q.openEvents :=
  of_nil (fun name => executedIn_openEvents name q)

theorem compiled (h : ∀ e ∈ events, ∃ cell, e = .compiled cell) : IssuedFor tables events := by
  refine of_nil (fun name => executedIn_eq_nil ?_)
  intro e he
  obtain ⟨cell, rfl⟩ := h e he
  rfl

theorem polled (leaf : Leaf) : IssuedFor tables [.polled leaf] := of_nil (fun _ => rfl)

end IssuedFor

namespace Stream

theorem tables_stream (q : Query) : q.stream.tables = q.tables := by
  induction q with
  | script name items observes => cases observes <;> rfl
  | counting counter input ih => exact ih
  | absorbing name supported refusal input ih => exact ih
  | declining supported input ih => exact ih
  | _ => rfl

/-- A round executes the commands of some tables only, and leaves a stream that can execute those
of no others. -/
structure Confined (tables : List SqlQuery) (r : Round Stream) : Prop where
  next : ∀ t ∈ r.next.tables, t ∈ tables
  events : IssuedFor tables r.events

namespace Confined

variable {tables : List SqlQuery} {r : Round Stream}

theorem mono {more : List SqlQuery} (h : Confined tables r) (hmore : ∀ t ∈ tables, t ∈ more) :
    Confined more r :=
  ⟨fun t ht => hmore t (h.next t ht), h.events.mono hmore⟩

theorem close (h : Confined tables r) (a : Answer) : Confined tables (Stream.close r a) :=
  ⟨List.forall_mem_nil _, h.events.append (.release r.next)⟩

theorem cancelled (s : Stream) : Confined tables (Stream.cancelled s) :=
  ⟨List.forall_mem_nil _, .release s⟩

theorem filterNext (h : Confined tables r) (c : CompiledExpr) :
    Confined tables (Stream.filterNext c r) := by
  rcases filterNext_cases c r with ⟨a, -, hr⟩ | ⟨answer, -, hr⟩
  · rw [hr]
    exact h.close a
  · rw [hr]
    exact ⟨h.next, h.events⟩

theorem projectNext (h : Confined tables r) (c : CompiledExpr) :
    Confined tables (Stream.projectNext c r) := by
  rcases projectNext_cases c r with ⟨a, -, hr⟩ | ⟨answer, -, hr⟩
  · rw [hr]
    exact h.close a
  · rw [hr]
    exact ⟨h.next, h.events⟩

/-- A join opens its inner query, whose tables count as those of the join from the start. -/
theorem joinOuterNext (h : Confined tables r) {inner : Query}
    (hinner : ∀ t ∈ inner.tables, t ∈ tables) (c d : CompiledExpr) :
    Confined tables (Stream.joinOuterNext inner c d r) := by
  have hboth : ∀ t ∈ r.next.tables ++ inner.tables, t ∈ tables := by
    intro t ht
    rcases List.mem_append.mp ht with ht | ht
    · exact h.next t ht
    · exact hinner t ht
  rcases joinOuterNext_cases inner c d r with ⟨a, -, hr⟩ | ⟨answer, -, hr⟩ | ⟨row, hr⟩
  · rw [hr]
    exact h.close a
  · rw [hr]
    exact ⟨hboth, h.events⟩
  · -- the inner query becomes a stream, which has the tables of the query
    rw [hr]
    refine ⟨?_, h.events.append (.openEvents inner)⟩
    intro t ht
    have hopened : t ∈ r.next.tables ++ inner.tables ++ inner.stream.tables := ht
    rw [tables_stream, List.mem_append] at hopened
    rcases hopened with ht | ht
    · exact hboth t ht
    · exact hinner t ht

theorem joinInnerNext (h : Confined tables r) {inner : Query} {outer : Stream}
    (houter : ∀ t ∈ outer.tables ++ inner.tables, t ∈ tables) (c d : CompiledExpr) (row : Value) :
    Confined tables (Stream.joinInnerNext inner c d outer row r) := by
  rcases joinInnerNext_cases inner c d outer row r with ⟨a, -, hr⟩ | ⟨answer, -, hr⟩ | hr
  · rw [hr]
    exact ⟨List.forall_mem_nil _, (h.events.append (.release r.next)).append (.release outer)⟩
  · rw [hr]
    refine ⟨?_, h.events⟩
    intro t ht
    have hheld : t ∈ outer.tables ++ inner.tables ++ r.next.tables := ht
    rcases List.mem_append.mp hheld with ht | ht
    · exact houter t ht
    · exact h.next t ht
  · rw [hr]
    exact ⟨houter, h.events.append (.release r.next)⟩

theorem around (h : Confined tables r) (inner : Stream) :
    Confined tables ((Cancellable.around Stream.release false inner (fun _ => r)).map adapter) := by
  obtain ⟨answer, next, events⟩ := r
  rcases answer with _ | v | e | _ | _
  · exact ⟨h.next, h.events⟩
  · exact ⟨h.next, h.events⟩
  · exact ⟨h.next, h.events⟩
  · exact ⟨h.next, h.events⟩
  · exact ⟨List.forall_mem_nil _, h.events.append (.release next)⟩

/-- An operator opens its input when its expressions have been compiled. -/
theorem opening {events : List Event} (h : ∀ e ∈ events, ∃ cell, e = .compiled cell)
    {input : Query} {s : Stream} (hs : s.tables = tables) :
    Confined tables ⟨none, s, events ++ input.openEvents⟩ :=
  ⟨fun _ ht => hs ▸ ht, (IssuedFor.compiled h).append (.openEvents input)⟩

/-- A table executes its own command. -/
theorem sqlStart (g : Setting) (q : SqlQuery) : Confined [q] (Stream.sqlStart g q) := by
  unfold Stream.sqlStart
  split
  · exact ⟨List.forall_mem_nil _, .of_nil (fun _ => rfl)⟩
  · rename_i connection command hcommand
    dsimp only
    split
    · exact ⟨List.forall_mem_nil _, .of_nil (fun _ => rfl)⟩
    · refine ⟨List.forall_mem_nil _, ?_⟩
      intro name issued hissued
      by_cases hname : connection.name = name
      · have hsame : command = issued := by
          simpa [executedIn, Session.executedOn?, hname] using hissued
        exact ⟨q, List.mem_singleton_self q, connection, hname, hsame ▸ hcommand⟩
      · simp [executedIn, Session.executedOn?, hname] at hissued

end Confined

/-- **A round executes no commands but those of the tables beneath it.** -/
theorem confined_step (g : Setting) (token : Bool) (s : Stream) :
    Confined s.tables (step g token s) := by
  induction s with
  | values rest => cases rest <;> exact ⟨List.forall_mem_nil _, .polled _⟩
  | script name rest =>
      rcases rest with _ | ⟨_ | _ | _, rest⟩ <;> exact ⟨List.forall_mem_nil _, .polled _⟩
  | stalled => exact ⟨List.forall_mem_nil _, .polled _⟩
  | failing e => cases e <;> exact ⟨List.forall_mem_nil _, .polled _⟩
  | counting counter inner ih => exact ⟨ih.next, ih.events⟩
  | cancellable inner ih =>
      cases token with
      | true => exact ⟨List.forall_mem_nil _, .release inner⟩
      | false => exact ih.around inner
  | filterIdle input p =>
      cases token with
      | true => exact ⟨List.forall_mem_nil _, .of_nil (fun _ => rfl)⟩
      | false =>
          obtain ⟨events, hevents, ⟨e, hstep⟩ | ⟨c, hstep⟩⟩ := step_filterIdle g input p
          · rw [hstep]
            exact ⟨List.forall_mem_nil _, .compiled hevents⟩
          · rw [hstep]
            exact .opening hevents (tables_stream input)
  | filterOpen c input ih =>
      cases token with
      | true => exact .cancelled input
      | false => exact ih.filterNext c
  | projectIdle input e =>
      cases token with
      | true => exact ⟨List.forall_mem_nil _, .of_nil (fun _ => rfl)⟩
      | false =>
          obtain ⟨events, hevents, ⟨err, hstep⟩ | ⟨c, hstep⟩⟩ := step_projectIdle g input e
          · rw [hstep]
            exact ⟨List.forall_mem_nil _, .compiled hevents⟩
          · rw [hstep]
            exact .opening hevents (tables_stream input)
  | projectOpen c input ih =>
      cases token with
      | true => exact .cancelled input
      | false => exact ih.projectNext c
  | joinIdle outer inner condition combine =>
      cases token with
      | true => exact ⟨List.forall_mem_nil _, .of_nil (fun _ => rfl)⟩
      | false =>
          obtain ⟨events, hevents, ⟨e, hstep⟩ | ⟨c, d, hstep⟩⟩ :=
            step_joinIdle g outer inner condition combine
          · rw [hstep]
            exact ⟨List.forall_mem_nil _, .compiled hevents⟩
          · rw [hstep]
            refine .opening hevents ?_
            show outer.stream.tables ++ inner.tables = outer.tables ++ inner.tables
            rw [tables_stream]
  | joinOuter inner c d outer ih =>
      cases token with
      | true => exact .cancelled outer
      | false =>
          have houter : Confined (outer.tables ++ inner.tables) (step g false outer) :=
            ih.mono (fun t ht => List.mem_append_left _ ht)
          exact houter.joinOuterNext (fun t ht => List.mem_append_right _ ht) c d
  | joinInner inner c d outer row current _ ih =>
      cases token with
      | true => exact ⟨List.forall_mem_nil _, IssuedFor.append (.release outer) (.release current)⟩
      | false =>
          have hcurrent : Confined (outer.tables ++ inner.tables ++ current.tables)
              (step g false current) := ih.mono (fun t ht => List.mem_append_right _ ht)
          exact hcurrent.joinInnerNext (fun t ht => List.mem_append_left _ ht) c d row
  | sqlIdle q => exact .sqlStart g q
  | sqlExecuting columns connection delay reply =>
      rcases step_sqlExecuting_cases g token columns connection delay reply with
        ⟨delay', h⟩ | ⟨e, h⟩ | ⟨rows, h⟩
      all_goals
        rw [h]
        exact ⟨List.forall_mem_nil _, .of_nil (fun _ => rfl)⟩
  | sqlReading columns connection rest =>
      rcases sqlNext_cases columns connection rest with ⟨a, -, h⟩ | ⟨a, more, -, h⟩
      all_goals
        rw [step, h]
        exact ⟨List.forall_mem_nil _, .polled _⟩
  | closed => exact ⟨List.forall_mem_nil _, .of_nil (fun _ => rfl)⟩

theorem confined_poll (g : Setting) (token : Bool) (s : Stream) :
    (∀ t ∈ (poll g token s).next.tables, t ∈ s.tables) ∧
      IssuedFor s.tables (poll g token s).events := by
  fun_induction poll g token s with
  | case1 g s answer next events hs =>
      have hround := confined_step g token s
      rw [hs] at hround
      exact ⟨hround.next, hround.events⟩
  | case2 g s next events hs rest ih =>
      have hround := confined_step g token s
      rw [hs] at hround
      exact ⟨fun t ht => hround.next t (ih.1 t ht), hround.events.append (ih.2.mono hround.next)⟩

theorem confined_pollAll (occasions : List Occasion) (s : Stream) :
    IssuedFor s.tables (s.pollAll occasions).events := by
  induction occasions generalizing s with
  | nil => exact .of_nil (fun _ => rfl)
  | cons o rest ih =>
      obtain ⟨hnext, hevents⟩ := confined_poll o.setting o.cancelled s
      exact hevents.append ((ih _).mono hnext)

end Stream

end RowQuery
