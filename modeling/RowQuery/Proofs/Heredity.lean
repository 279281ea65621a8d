import RowQuery.Proofs.Schedule

set_option autoImplicit false

/-! # What a stream hands down

Some things are true of a stream because they are true of everything that it holds and of every
query that it may still open: that all its leaves follow scripts, say. An operator has no part in
this. It is enough to say what the leaves and the states of the operators amount to
(`Stream.Hereditary`), and every round keeps it (`Stream.Hereditary.step`). -/

namespace RowQuery

namespace Stream

/-- A property `P` of streams that comes down to their leaves, and to a property `Q` of the queries
that are still to be opened. -/
structure Hereditary (P : Stream → Prop) (Q : Query → Prop) : Prop where
  stream : ∀ q, Q q → P q.stream
  values : ∀ rest, P (.values rest)
  script : ∀ name rest, P (.script name rest)
  failing : ∀ e, P (.failing e)
  closed : P .closed
  counting : ∀ counter inner, P (.counting counter inner) ↔ P inner
  cancellable : ∀ inner, P (.cancellable inner) ↔ P inner
  filterIdle : ∀ input p, P (.filterIdle input p) ↔ Q input
  filterOpen : ∀ c input, P (.filterOpen c input) ↔ P input
  projectIdle : ∀ input e, P (.projectIdle input e) ↔ Q input
  projectOpen : ∀ c input, P (.projectOpen c input) ↔ P input
  joinIdle : ∀ outer inner e f, P (.joinIdle outer inner e f) ↔ Q outer ∧ Q inner
  joinOuter : ∀ inner c d outer, P (.joinOuter inner c d outer) ↔ P outer ∧ Q inner
  joinInner : ∀ inner c d outer row current,
    P (.joinInner inner c d outer row current) ↔ P outer ∧ P current ∧ Q inner
  sqlStart : ∀ setting q, P (.sqlIdle q) → P (sqlStart setting q).next
  sqlDelayed : ∀ columns connection delay delay' reply,
    P (.sqlExecuting columns connection delay reply) →
      P (.sqlExecuting columns connection delay' reply)
  sqlExecuted : ∀ columns connection delay reply rows,
    P (.sqlExecuting columns connection delay reply) → P (.sqlReading columns connection rows)
  sqlReading : ∀ columns connection rows rows',
    P (.sqlReading columns connection rows) → P (.sqlReading columns connection rows')

namespace Hereditary

variable {P : Stream → Prop} {Q : Query → Prop} (h : Hereditary P Q) {r : Round Stream}

include h

theorem filterNext (c : CompiledExpr) (hr : P r.next) : P (filterNext c r).next := by
  rcases filterNext_cases c r with ⟨a, -, hnext⟩ | ⟨answer, -, hnext⟩
  · rw [hnext]
    exact h.closed
  · rw [hnext]
    exact (h.filterOpen c r.next).mpr hr

theorem projectNext (c : CompiledExpr) (hr : P r.next) : P (projectNext c r).next := by
  rcases projectNext_cases c r with ⟨a, -, hnext⟩ | ⟨answer, -, hnext⟩
  · rw [hnext]
    exact h.closed
  · rw [hnext]
    exact (h.projectOpen c r.next).mpr hr

theorem joinOuterNext {inner : Query} (c d : CompiledExpr) (hinner : Q inner) (hr : P r.next) :
    P (joinOuterNext inner c d r).next := by
  rcases joinOuterNext_cases inner c d r with ⟨a, -, hnext⟩ | ⟨answer, -, hnext⟩ | ⟨row, hnext⟩
  · rw [hnext]
    exact h.closed
  · rw [hnext]
    exact (h.joinOuter inner c d r.next).mpr ⟨hr, hinner⟩
  · rw [hnext]
    exact (h.joinInner inner c d r.next row _).mpr
      ⟨hr, (h.cancellable _).mpr (h.stream inner hinner), hinner⟩

theorem joinInnerNext {inner : Query} {outer : Stream} (c d : CompiledExpr) (row : Value)
    (hinner : Q inner) (houter : P outer) (hr : P r.next) :
    P (joinInnerNext inner c d outer row r).next := by
  rcases joinInnerNext_cases inner c d outer row r with ⟨a, -, hnext⟩ | ⟨answer, -, hnext⟩ | hnext
  · rw [hnext]
    exact h.closed
  · rw [hnext]
    exact (h.joinInner inner c d outer row r.next).mpr ⟨houter, hr, hinner⟩
  · rw [hnext]
    exact (h.joinOuter inner c d outer).mpr ⟨houter, hinner⟩

theorem around (release : Stream → List Event) (token : Bool) (inner : Stream) (hr : P r.next) :
    P ((Cancellable.around release token inner (fun _ => r)).map adapter).next := by
  obtain ⟨answer, next, events⟩ := r
  cases token with
  | true => exact h.closed
  | false =>
      rcases answer with _ | v | e | _ | _
      · exact (h.cancellable next).mpr hr
      · exact (h.cancellable next).mpr hr
      · exact (h.cancellable next).mpr hr
      · exact (h.cancellable next).mpr hr
      · exact h.closed

/-- **A round keeps what is handed down**: the streams that it opens are streams of the same
queries. -/
theorem step (setting : Setting) (token : Bool) {s : Stream} (hs : P s) :
    P (step setting token s).next := by
  induction s with
  | values rest => cases rest <;> exact h.values _
  | script name rest => rcases rest with _ | ⟨_ | _ | _, rest⟩ <;> exact h.script name _
  | stalled => exact hs
  | failing e => cases e <;> exact h.failing _
  | counting counter inner ih =>
      exact (h.counting counter _).mpr (ih ((h.counting counter inner).mp hs))
  | cancellable inner ih =>
      rw [Stream.step]
      exact h.around release token inner (ih ((h.cancellable inner).mp hs))
  | filterIdle input p =>
      rw [Stream.step]
      split
      · exact h.closed
      · split
        · exact h.closed
        · have hinput := h.stream input ((h.filterIdle input p).mp hs)
          exact (h.filterOpen _ _).mpr ((h.cancellable _).mpr hinput)
  | filterOpen c input ih =>
      rw [Stream.step]
      split
      · exact h.closed
      · exact h.filterNext c (ih ((h.filterOpen c input).mp hs))
  | projectIdle input e =>
      rw [Stream.step]
      split
      · exact h.closed
      · split
        · exact h.closed
        · have hinput := h.stream input ((h.projectIdle input e).mp hs)
          exact (h.projectOpen _ _).mpr ((h.cancellable _).mpr hinput)
  | projectOpen c input ih =>
      rw [Stream.step]
      split
      · exact h.closed
      · exact h.projectNext c (ih ((h.projectOpen c input).mp hs))
  | joinIdle outer inner condition combine =>
      obtain ⟨houter, hinner⟩ := (h.joinIdle outer inner condition combine).mp hs
      rw [Stream.step]
      split
      · exact h.closed
      · split
        · exact h.closed
        · exact (h.joinOuter _ _ _ _).mpr
            ⟨(h.cancellable _).mpr (h.stream outer houter), hinner⟩
  | joinOuter inner c d outer ih =>
      obtain ⟨houter, hinner⟩ := (h.joinOuter inner c d outer).mp hs
      rw [Stream.step]
      split
      · exact h.closed
      · exact h.joinOuterNext c d hinner (ih houter)
  | joinInner inner c d outer row current _ ihCurrent =>
      obtain ⟨houter, hcurrent, hinner⟩ := (h.joinInner inner c d outer row current).mp hs
      rw [Stream.step]
      split
      · exact h.closed
      · exact h.joinInnerNext c d row hinner houter (ihCurrent hcurrent)
  | sqlIdle q => exact h.sqlStart setting q hs
  | sqlExecuting columns connection delay reply =>
      rcases step_sqlExecuting_cases setting token columns connection delay reply
        with ⟨delay', hr⟩ | ⟨e, hr⟩ | ⟨rows, hr⟩
      · rw [hr]
        exact h.sqlDelayed columns connection delay delay' reply hs
      · rw [hr]
        exact h.closed
      · rw [hr]
        exact h.sqlExecuted columns connection delay reply rows hs
  | sqlReading columns connection rest =>
      rw [Stream.step]
      rcases sqlNext_cases columns connection rest with ⟨a, -, hr⟩ | ⟨a, more, -, hr⟩
      · rw [hr]
        exact h.closed
      · rw [hr]
        exact h.sqlReading columns connection rest more hs
  | closed => exact h.closed

end Hereditary

end Stream

end RowQuery
