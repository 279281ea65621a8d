import RowQuery.Query.Stream

set_option autoImplicit false

/-! # Polling

To poll a stream is to go round its loop until there is an answer. The loop ends because every round
leaves less to do: `Stream.work` bounds the rounds, elements and errors that a stream can still come
to, and `Stream.work_step` says that a round without an answer, an element or an error lowers it,
and nothing raises it. The bound multiplies at a join, whose inner query is enumerated anew for each
outer element, and depends on how connections answer, because the rows that a table delivers come
from there. -/

namespace RowQuery

/-! ## A bound on what is left to do -/

/-- What an execution can come to: one error, or the rounds of reading. -/
def Reply.work : Reply → Nat
  | .never => 0
  | .fails _ => 1
  | .reader rows => rows.length + 1

/-- A bound for a whole enumeration of a query. -/
def Query.work (behavior : String → Behavior) : Query → Nat
  | .values rows => rows.length
  | .script _ items _ => items.length
  | .stalled => 0
  | .failing _ => 1
  | .counting _ input => work behavior input
  | .absorbing _ _ _ input => work behavior input
  | .declining _ input => work behavior input
  | .sql q =>
    match q.command with
    | .ok (connection, _) =>
      (behavior connection.name).delay + (behavior connection.name).reply.work + 1
    | .error _ => 1
  | .localFilter input _ => work behavior input + 1
  | .localProject input _ => work behavior input + 1
  | .localJoin outer inner _ _ => work behavior outer * (work behavior inner + 2) + 1

namespace Stream

/-- A bound on the rounds without an answer, the elements and the errors that a stream can still
come to. -/
def work (behavior : String → Behavior) : Stream → Nat
  | .values rest => rest.length
  | .script _ rest => rest.length
  | .stalled => 0
  | .failing none => 0
  | .failing (some _) => 1
  | .counting _ inner => work behavior inner
  | .cancellable inner => work behavior inner
  | .filterIdle input _ => input.work behavior + 1
  | .filterOpen _ input => work behavior input
  | .projectIdle input _ => input.work behavior + 1
  | .projectOpen _ input => work behavior input
  | .joinIdle outer inner _ _ => outer.work behavior * (inner.work behavior + 2) + 1
  | .joinOuter inner _ _ outer => work behavior outer * (inner.work behavior + 2)
  | .joinInner inner _ _ outer _ current =>
    work behavior outer * (inner.work behavior + 2) + work behavior current + 1
  | .sqlIdle q => (Query.sql q).work behavior
  | .sqlExecuting _ _ delay reply => delay + reply.work
  | .sqlReading _ _ rest => rest.length
  | .closed => 0

/-- Opening a stream does none of the work of the query. -/
theorem work_stream (behavior : String → Behavior) (q : Query) :
    q.stream.work behavior = q.work behavior := by
  induction q with
  | script name items observesToken => cases observesToken <;> rfl
  | counting counter input ih => simpa only [Query.stream, work, Query.work] using ih
  | absorbing name supported refusal input ih => exact ih
  | declining supported input ih => exact ih
  | _ => rfl

/-- What a round takes off the bound: nothing if it answers that there is nothing to have now. -/
def cost : Option Answer → Nat
  | some .pending => 0
  | some .finished => 0
  | _ => 1

/-- The bound that a round leaves, with what the round itself took. -/
def total (behavior : String → Behavior) (r : Round Stream) : Nat :=
  r.next.work behavior + cost r.answer

section Rounds

variable {behavior : String → Behavior} {r : Round Stream} {n : Nat}

/-- A stream that closes has nothing left to do. -/
theorem total_close (r : Round Stream) (answer : Answer) :
    total behavior (close r answer) = cost (some answer) := by
  simp only [total, close, work, Nat.zero_add]

/-- Closing on an answer is within the bound when that answer costs no more than the round did. -/
theorem total_close_le {answer : Answer} (h : total behavior r ≤ n)
    (hc : cost (some answer) ≤ cost r.answer) : total behavior (close r answer) ≤ n := by
  rw [total_close]
  exact Nat.le_trans (Nat.le_trans hc (Nat.le_add_left _ _)) h

theorem total_filterNext {c : CompiledExpr} (h : total behavior r ≤ n) :
    total behavior (filterNext c r) ≤ n := by
  obtain ⟨answer, next, events⟩ := r
  rcases answer with _ | v | e | _ | _
  · exact h
  · simp only [filterNext]
    split
    · exact h
    · exact h
    · exact total_close_le h (Nat.le_refl 1)
  · exact total_close_le h (Nat.le_refl 1)
  · exact h
  · exact total_close_le h (Nat.le_refl 0)

theorem total_projectNext {c : CompiledExpr} (h : total behavior r ≤ n) :
    total behavior (projectNext c r) ≤ n := by
  obtain ⟨answer, next, events⟩ := r
  rcases answer with _ | v | e | _ | _
  · exact h
  · simp only [projectNext]
    split
    · exact h
    · exact total_close_le h (Nat.le_refl 1)
  · exact total_close_le h (Nat.le_refl 1)
  · exact h
  · exact total_close_le h (Nat.le_refl 0)

theorem total_cancellable {release : Stream → List Event} {token : Bool} {inner : Stream}
    (h : total behavior r ≤ n) :
    total behavior ((Cancellable.around release token inner (fun _ => r)).map adapter) ≤ n := by
  obtain ⟨answer, next, events⟩ := r
  cases token with
  | true => exact Nat.zero_le n
  | false =>
    rcases answer with _ | v | e | _ | _
    · exact h
    · exact h
    · exact h
    · exact h
    · exact Nat.zero_le n

/-- While a join goes through inner elements, the rest of the outer stream waits. -/
theorem total_joinInnerNext {inner : Query} {c d : CompiledExpr} {outer : Stream} {row : Value}
    (h : total behavior r ≤ n) :
    total behavior (joinInnerNext inner c d outer row r) ≤
      outer.work behavior * (inner.work behavior + 2) + n + 1 := by
  obtain ⟨answer, next, events⟩ := r
  rcases answer with _ | v | e | _ | _
  · simp only [joinInnerNext, total, work, cost] at h ⊢
    omega
  · simp only [total, cost] at h
    simp only [joinInnerNext]
    split
    · simp only [total, work, cost]
      omega
    · simp only [total, work, cost]
      omega
    · simp only [total, work, cost]
      omega
  · simp only [joinInnerNext, total, work, cost] at h ⊢
    omega
  · simp only [joinInnerNext, total, work, cost] at h ⊢
    omega
  · simp only [joinInnerNext, total, work, cost] at h ⊢
    omega

/-- An outer element pays for the enumeration of the inner query that it starts. -/
theorem total_joinOuterNext {inner : Query} {c d : CompiledExpr} (h : total behavior r ≤ n) :
    total behavior (joinOuterNext inner c d r) ≤ n * (inner.work behavior + 2) := by
  obtain ⟨answer, next, events⟩ := r
  have grow := Nat.mul_le_mul_right (inner.work behavior + 2) h
  rcases answer with _ | v | e | _ | _
  · simp only [joinOuterNext, total, work, cost, Nat.add_mul, Nat.one_mul] at grow ⊢
    omega
  · simp only [joinOuterNext, total, work, work_stream, cost, Nat.add_mul, Nat.one_mul] at grow ⊢
    omega
  · simp only [total, cost, Nat.add_mul, Nat.one_mul] at grow
    simp only [joinOuterNext, total_close, cost]
    omega
  · simp only [joinOuterNext, total, work, cost, Nat.add_zero] at grow ⊢
    exact grow
  · simp only [joinOuterNext, total_close, cost]
    exact Nat.zero_le _

end Rounds

/-- A round lowers the bound by at least what it costs. -/
theorem work_step (setting : Setting) (token : Bool) (s : Stream) :
    total setting.behavior (step setting token s) ≤ s.work setting.behavior := by
  induction s with
  | values rest => cases rest <;> simp [step, total, work, cost]
  | script name rest =>
    rcases rest with _ | ⟨_ | _ | _, rest⟩ <;> simp [step, scriptNext, total, work, cost]
  | stalled => simp [step, total, work, cost]
  | failing e => cases e <;> simp [step, total, work, cost]
  | counting counter inner ih => simpa only [step, Round.map, total, work] using ih
  | cancellable inner ih =>
    rw [step]
    exact total_cancellable ih
  | filterIdle input p =>
    rw [step]
    split
    · simp [total, work, cost]
    · split <;> simp [total, work, work_stream, cost]
  | filterOpen c input ih =>
    rw [step]
    split
    · simp [cancelled, total, work, cost]
    · exact total_filterNext ih
  | projectIdle input e =>
    rw [step]
    split
    · simp [total, work, cost]
    · split <;> simp [total, work, work_stream, cost]
  | projectOpen c input ih =>
    rw [step]
    split
    · simp [cancelled, total, work, cost]
    · exact total_projectNext ih
  | joinIdle outer inner condition combine =>
    rw [step]
    split
    · simp [total, work, cost]
    · split <;> simp [total, work, work_stream, cost]
  | joinOuter inner c d outer ih =>
    rw [step]
    split
    · simp [cancelled, total, work, cost]
    · exact total_joinOuterNext ih
  | joinInner inner c d outer row current ihOuter ihCurrent =>
    rw [step]
    split
    · simp [total, work, cost]
    · exact total_joinInnerNext ihCurrent
  | sqlIdle q =>
    rw [step, sqlStart]
    split
    · rename_i e h
      simp [total, work, Query.work, cost, h]
    · rename_i connection command h
      simp only [total, work, Query.work, h]
      split
      · simp only [work, cost]
        omega
      · simp only [work, cost]
        omega
  | sqlExecuting columns connection delay reply =>
    cases delay with
    | succ delay => simp [step, total, work, cost]
    | zero => cases reply <;> simp [step, total, work, Reply.work, cost]
  | sqlReading columns connection rest =>
    rcases rest with _ | ⟨row | _ | _, rest⟩
    · simp [step, sqlNext, total, work, cost]
    · simp only [step, sqlNext]
      split <;> simp [total, work, cost]
    · simp [step, sqlNext, total, work, cost]
    · simp [step, sqlNext, total, work, cost]
  | closed => simp [step, total, work, cost]

/-- A round without an answer leaves strictly less to do. -/
theorem work_step_lt {setting : Setting} {token : Bool} {s next : Stream} {events : List Event}
    (h : step setting token s = ⟨none, next, events⟩) :
    next.work setting.behavior < s.work setting.behavior := by
  have := work_step setting token s
  simp only [h, total, cost] at this
  omega

/-! ## The loop -/

/-- What polling a stream comes to. -/
structure Polled where
  answer : Answer
  next : Stream
  events : List Event

/-- Polls a stream: goes round its loop until there is an answer. What has been compiled in one
round is there in the next. -/
def poll (setting : Setting) (token : Bool) (s : Stream) : Polled :=
  match _h : step setting token s with
  | ⟨some answer, next, events⟩ => ⟨answer, next, events⟩
  | ⟨none, next, events⟩ =>
    let rest := poll (setting.recordAll events) token next
    ⟨rest.answer, rest.next, events ++ rest.events⟩
termination_by s.work setting.behavior
decreasing_by
  rw [Setting.behavior_recordAll]
  exact work_step_lt _h

theorem poll_of_step_some {setting : Setting} {token : Bool} {s next : Stream} {answer : Answer}
    {events : List Event} (h : step setting token s = ⟨some answer, next, events⟩) :
    poll setting token s = ⟨answer, next, events⟩ := by
  rw [poll]
  split
  · rename_i h'
    rw [h] at h'
    cases h'
    rfl
  · rename_i h'
    rw [h] at h'
    cases h'

theorem poll_of_step_none {setting : Setting} {token : Bool} {s next : Stream}
    {events : List Event} (h : step setting token s = ⟨none, next, events⟩) :
    poll setting token s =
      ⟨(poll (setting.recordAll events) token next).answer,
        (poll (setting.recordAll events) token next).next,
        events ++ (poll (setting.recordAll events) token next).events⟩ := by
  rw [poll]
  split
  · rename_i h'
    rw [h] at h'
    cases h'
  · rename_i h'
    rw [h] at h'
    cases h'
    rfl

/-- A poll lowers the bound by at least what its answer costs: an element or an error leaves
strictly less to do. -/
theorem work_poll (setting : Setting) (token : Bool) (s : Stream) :
    (poll setting token s).next.work setting.behavior + cost (some (poll setting token s).answer) ≤
      s.work setting.behavior := by
  fun_induction poll setting token s with
  | case1 setting s answer next events h =>
    simpa [h, total] using work_step setting token s
  | case2 setting s next events h rest ih =>
    have lower := work_step_lt h
    rw [Setting.behavior_recordAll] at ih
    exact Nat.le_of_lt (Nat.lt_of_le_of_lt ih lower)

/-- After an element there is strictly less to do. -/
theorem work_poll_lt_of_row {setting : Setting} {token : Bool} {s : Stream} {v : Value}
    (h : (poll setting token s).answer = .row v) :
    (poll setting token s).next.work setting.behavior < s.work setting.behavior := by
  have := work_poll setting token s
  rw [h] at this
  simp only [cost] at this
  omega

/-- After an error there is strictly less to do. -/
theorem work_poll_lt_of_error {setting : Setting} {token : Bool} {s : Stream} {e : QueryError}
    (h : (poll setting token s).answer = .error e) :
    (poll setting token s).next.work setting.behavior < s.work setting.behavior := by
  have := work_poll setting token s
  rw [h] at this
  simp only [cost] at this
  omega

end Stream

end RowQuery
