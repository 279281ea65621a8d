import RowQuery.Expr.Lazy
import RowQuery.Query.Basic
import RowQuery.Sql.Connection

set_option autoImplicit false

/-! # Events

What streams do besides answering: they open and drop other streams, poll the leaves, compile
expressions and issue commands. A stream does not change anything it shares with others. It reports
events, in the order in which they happen, and whoever polls it keeps the record. -/

namespace RowQuery

/-- The leaf of a query that is polled. -/
inductive Leaf where
  | values
  | script (name : String)
  | stalled
  | failing
  /-- The reader that a connection has returned. -/
  | reader (connection : String)
  deriving DecidableEq

/-- Something that a stream does. -/
inductive Event where
  /-- A stream of a query is opened. -/
  | opened (q : Query)
  /-- A stream that reports to a counter is dropped. -/
  | released (counter : Nat)
  /-- A leaf is asked for its next answer. -/
  | polled (leaf : Leaf)
  /-- An expression is compiled, or found not to compile; the cell is the one that comes of it. -/
  | compiled (cell : LazyExpr)
  /-- A connection is asked for a command. -/
  | requested (connection : String)
  /-- A connection executes a command. -/
  | executed (connection : String) (command : IssuedCommand)
  /-- A source that keeps a record of it is handed an operator. -/
  | handed (source : String) (op : Operator)

/-- What a stream sees of its surroundings while it is polled: how connections answer, and which
expressions have been compiled. -/
structure Setting where
  behavior : String → Behavior
  cache : CompileCache

namespace Setting

/-- The surroundings after an event. -/
def record (s : Setting) : Event → Setting
  | .compiled cell => { s with cache := s.cache.store cell }
  | _ => s

/-- The surroundings after several events. -/
def recordAll (s : Setting) (events : List Event) : Setting := events.foldl record s

/-- Streams do not change how connections answer. -/
@[simp] theorem behavior_recordAll (s : Setting) (events : List Event) :
    (s.recordAll events).behavior = s.behavior := by
  induction events generalizing s with
  | nil => rfl
  | cons e rest ih =>
    rw [recordAll, List.foldl_cons, ← recordAll, ih]
    cases e <;> rfl

/-- The compiled form of an expression, and the event of compiling it if that has not been done. -/
def compile (s : Setting) (e : Expr) (arity : Nat) : Except EvalError CompiledExpr × List Event :=
  let cell := s.cache.cell e arity
  let (code, after) := cell.get
  (code, if cell.isCompiled then [] else [.compiled after])

/-- Both expressions of a join, in two cells; the second one is not looked at if the first one does
not compile. -/
def compileBoth (s : Setting) (e f : Expr) (arity : Nat) :
    Except EvalError (CompiledExpr × CompiledExpr) × List Event :=
  match s.compile e arity with
  | (.error err, events) => (.error err, events)
  | (.ok c, events) =>
    match s.compile f arity with
    | (.error err, more) => (.error err, events ++ more)
    | (.ok d, more) => (.ok (c, d), events ++ more)

/-- What has been compiled before does not show in what compiling gives. -/
theorem compile_fst (s : Setting) (e : Expr) (arity : Nat) :
    (s.compile e arity).1 = CompiledExpr.compile e arity :=
  s.cache.get_eq e arity

/-- Compiling an expression is all that happens when an expression is compiled. -/
theorem compiled_of_mem_compile {s : Setting} {e : Expr} {arity : Nat} {event : Event}
    (h : event ∈ (s.compile e arity).2) : ∃ cell, event = .compiled cell := by
  unfold compile at h
  simp only at h
  split at h
  · cases h
  · exact ⟨_, List.mem_singleton.mp h⟩

theorem compiled_of_mem_compileBoth {s : Setting} {e f : Expr} {arity : Nat} {event : Event}
    (h : event ∈ (s.compileBoth e f arity).2) : ∃ cell, event = .compiled cell := by
  have he : event ∈ (s.compile e arity).2 → ∃ cell, event = .compiled cell :=
    compiled_of_mem_compile
  have hf : event ∈ (s.compile f arity).2 → ∃ cell, event = .compiled cell :=
    compiled_of_mem_compile
  unfold compileBoth at h
  rcases hse : s.compile e arity with ⟨err | c, events⟩
  · rw [hse] at h he
    exact he h
  · rcases hsf : s.compile f arity with ⟨err | d, more⟩
    all_goals
      rw [hse, hsf] at h
      rw [hse] at he
      rw [hsf] at hf
      rcases List.mem_append.mp h with h | h
      · exact he h
      · exact hf h

/-- Nor does it show where two expressions are compiled one after the other. -/
theorem compileBoth_fst (s : Setting) (e f : Expr) (arity : Nat) :
    (s.compileBoth e f arity).1 = (do
      let c ← CompiledExpr.compile e arity
      let d ← CompiledExpr.compile f arity
      return (c, d)) := by
  have he := s.compile_fst e arity
  have hf := s.compile_fst f arity
  unfold compileBoth
  rw [← he, ← hf]
  rcases s.compile e arity with ⟨err | c, events⟩
  · rfl
  · rcases s.compile f arity with ⟨err | d, more⟩ <;> rfl

/-- What compiling comes to where it fails. -/
theorem compile_of_error (s : Setting) {e : Expr} {arity : Nat} {err : EvalError}
    (h : CompiledExpr.compile e arity = .error err) :
    s.compile e arity = (.error err, (s.compile e arity).2) :=
  Prod.ext ((s.compile_fst e arity).trans h) rfl

theorem compileBoth_of_error (s : Setting) {e f : Expr} {arity : Nat} {err : EvalError}
    (h : (do
      let c ← CompiledExpr.compile e arity
      let d ← CompiledExpr.compile f arity
      return (c, d)) = .error err) :
    s.compileBoth e f arity = (.error err, (s.compileBoth e f arity).2) :=
  Prod.ext ((s.compileBoth_fst e f arity).trans h) rfl

end Setting

end RowQuery
