import RowQuery.Proofs.Schedule

set_option autoImplicit false

/-! # Where errors come from

A stream raises few errors of its own: an expression cannot be compiled or evaluated, a command
cannot be rendered, a row has the wrong width. Any other error that it answers with was in the
script of a leaf, or was given by a connection (`Stream.errorsIn_pollAll`). This says of many errors
that no stream ever answers with them: whoever wants to know has to look at the sources only.
-/

namespace RowQuery

/-- Whether streams raise the error of their own accord. -/
def QueryError.isOwn : QueryError → Bool
  | .rendering _ => true
  | .malformedChain => true
  | .evaluation _ => true
  | .rowWidth .. => true
  | _ => false

/-- All errors in a script are of a kind. -/
def ErrorsOf {α : Type} (P : QueryError → Prop) (items : List (Item α)) : Prop :=
  ∀ e, .error e ∈ items → P e

/-- All errors that the sources of a query answer with are of a kind. -/
def Query.ErrorsIn (P : QueryError → Prop) : Query → Prop
  | .script _ items _ => ErrorsOf P items
  | .failing e => P e
  | .counting _ input => ErrorsIn P input
  | .absorbing _ _ _ input => ErrorsIn P input
  | .declining _ input => ErrorsIn P input
  | .localFilter input _ => ErrorsIn P input
  | .localProject input _ => ErrorsIn P input
  | .localJoin outer inner _ _ => ErrorsIn P outer ∧ ErrorsIn P inner
  | _ => True

def Reply.ErrorsIn (P : QueryError → Prop) : Reply → Prop
  | .never => True
  | .fails e => P e
  | .reader rows => ErrorsOf P rows

/-- All errors that connections give are of a kind. -/
def Setting.ErrorsIn (P : QueryError → Prop) (g : Setting) : Prop :=
  ∀ name, (∀ e, (g.behavior name).refusal = some e → P e) ∧ (g.behavior name).reply.ErrorsIn P

/-- All errors that a stream can still be given are of a kind. -/
def Stream.ErrorsIn (P : QueryError → Prop) : Stream → Prop
  | .script _ rest => ErrorsOf P rest
  | .failing (some e) => P e
  | .counting _ inner => ErrorsIn P inner
  | .cancellable inner => ErrorsIn P inner
  | .filterIdle input _ => input.ErrorsIn P
  | .filterOpen _ input => ErrorsIn P input
  | .projectIdle input _ => input.ErrorsIn P
  | .projectOpen _ input => ErrorsIn P input
  | .joinIdle outer inner _ _ => outer.ErrorsIn P ∧ inner.ErrorsIn P
  | .joinOuter inner _ _ outer => inner.ErrorsIn P ∧ ErrorsIn P outer
  | .joinInner inner _ _ outer _ current => inner.ErrorsIn P ∧ ErrorsIn P outer ∧ ErrorsIn P current
  | .sqlExecuting _ _ _ reply => reply.ErrorsIn P
  | .sqlReading _ _ rest => ErrorsOf P rest
  | _ => True

/-- If there is an answer and it is an error, it is of a kind. -/
def AnswerIn (P : QueryError → Prop) : Option Answer → Prop
  | some (.error e) => P e
  | _ => True

/-- The error of a round is of a kind, and so are all errors to come. -/
structure Round.ErrorsIn (P : QueryError → Prop) (r : Round Stream) : Prop where
  answer : AnswerIn P r.answer
  next : r.next.ErrorsIn P

variable {P : QueryError → Prop}

theorem ErrorsOf.tail {α : Type} {item : Item α} {rest : List (Item α)}
    (h : ErrorsOf P (item :: rest)) : ErrorsOf P rest :=
  fun e he => h e (.tail _ he)

theorem Setting.ErrorsIn.recordAll {g : Setting} (h : g.ErrorsIn P) (events : List Event) :
    (g.recordAll events).ErrorsIn P := by
  intro name
  rw [Setting.behavior_recordAll]
  exact h name

/-- A command that cannot be rendered is an error of our own. -/
theorem SqlQuery.isOwn_of_command (q : SqlQuery) {e : QueryError} (h : q.command = .error e) :
    e.isOwn = true := by
  obtain ⟨source, hsource⟩ := q.node.exists_root
  rw [command_of_root hsource] at h
  cases hprepare : prepareFor source q.node.mergedFilter? with
  | error err =>
      rw [hprepare] at h
      cases h
      rfl
  | ok prepared =>
      rw [hprepare] at h
      cases h

namespace Stream

theorem errorsIn_stream {q : Query} (h : q.ErrorsIn P) : q.stream.ErrorsIn P := by
  induction q with
  | script name items observesToken => cases observesToken <;> exact h
  | failing e => exact h
  | counting counter input ih => exact ih h
  | absorbing name supported refusal input ih => exact ih h
  | declining supported input ih => exact ih h
  | localFilter input p ih => exact h
  | localProject input e ih => exact h
  | localJoin outer inner condition combine ihOuter ihInner => exact h
  | _ => trivial

section Operators

variable {r : Round Stream}

theorem errorsIn_filterNext (hown : ∀ e : QueryError, e.isOwn = true → P e) (c : CompiledExpr)
    (h : r.ErrorsIn P) : (filterNext c r).ErrorsIn P := by
  obtain ⟨answer, next, events⟩ := r
  obtain ⟨hanswer, hnext⟩ := h
  rcases answer with _ | v | e | _ | _
  · exact ⟨trivial, hnext⟩
  · simp only [filterNext]
    split
    · exact ⟨trivial, hnext⟩
    · exact ⟨trivial, hnext⟩
    · exact ⟨hown _ rfl, trivial⟩
  · exact ⟨hanswer, trivial⟩
  · exact ⟨trivial, hnext⟩
  · exact ⟨trivial, trivial⟩

theorem errorsIn_projectNext (hown : ∀ e : QueryError, e.isOwn = true → P e) (c : CompiledExpr)
    (h : r.ErrorsIn P) : (projectNext c r).ErrorsIn P := by
  obtain ⟨answer, next, events⟩ := r
  obtain ⟨hanswer, hnext⟩ := h
  rcases answer with _ | v | e | _ | _
  · exact ⟨trivial, hnext⟩
  · simp only [projectNext]
    split
    · exact ⟨trivial, hnext⟩
    · exact ⟨hown _ rfl, trivial⟩
  · exact ⟨hanswer, trivial⟩
  · exact ⟨trivial, hnext⟩
  · exact ⟨trivial, trivial⟩

theorem errorsIn_joinOuterNext {inner : Query} (hinner : inner.ErrorsIn P) (c d : CompiledExpr)
    (h : r.ErrorsIn P) : (joinOuterNext inner c d r).ErrorsIn P := by
  obtain ⟨answer, next, events⟩ := r
  obtain ⟨hanswer, hnext⟩ := h
  rcases answer with _ | v | e | _ | _
  · exact ⟨trivial, hinner, hnext⟩
  · exact ⟨trivial, hinner, hnext, errorsIn_stream hinner⟩
  · exact ⟨hanswer, trivial⟩
  · exact ⟨trivial, hinner, hnext⟩
  · exact ⟨trivial, trivial⟩

theorem errorsIn_joinInnerNext (hown : ∀ e : QueryError, e.isOwn = true → P e) {inner : Query}
    (hinner : inner.ErrorsIn P) (c d : CompiledExpr) {outer : Stream} (houter : outer.ErrorsIn P)
    (row : Value) (h : r.ErrorsIn P) : (joinInnerNext inner c d outer row r).ErrorsIn P := by
  obtain ⟨answer, next, events⟩ := r
  obtain ⟨hanswer, hnext⟩ := h
  rcases answer with _ | v | e | _ | _
  · exact ⟨trivial, hinner, houter, hnext⟩
  · simp only [joinInnerNext]
    split
    · exact ⟨trivial, hinner, houter, hnext⟩
    · exact ⟨trivial, hinner, houter, hnext⟩
    · exact ⟨hown _ rfl, trivial⟩
  · exact ⟨hanswer, trivial⟩
  · exact ⟨trivial, hinner, houter, hnext⟩
  · exact ⟨trivial, hinner, houter⟩

theorem errorsIn_around (h : r.ErrorsIn P) (inner : Stream) :
    ((Cancellable.around release false inner (fun _ => r)).map adapter).ErrorsIn P := by
  obtain ⟨answer, next, events⟩ := r
  obtain ⟨hanswer, hnext⟩ := h
  rcases answer with _ | v | e | _ | _
  · exact ⟨trivial, hnext⟩
  · exact ⟨trivial, hnext⟩
  · exact ⟨hanswer, hnext⟩
  · exact ⟨trivial, hnext⟩
  · exact ⟨trivial, trivial⟩

theorem errorsIn_scriptNext (name : String) {items : List (Item Value)} (h : ErrorsOf P items) :
    (scriptNext name items).ErrorsIn P := by
  rcases items with _ | ⟨v | e | _, rest⟩
  · exact ⟨trivial, h⟩
  · exact ⟨trivial, h.tail⟩
  · exact ⟨h e (.head _), h.tail⟩
  · exact ⟨trivial, h.tail⟩

theorem errorsIn_sqlNext (hown : ∀ e : QueryError, e.isOwn = true → P e) (columns : List String)
    (connection : String) {rows : List (Item Row)} (h : ErrorsOf P rows) :
    (sqlNext columns connection rows).ErrorsIn P := by
  rcases rows with _ | ⟨row | e | _, rest⟩
  · exact ⟨trivial, trivial⟩
  · by_cases hlength : row.length = columns.length
    · rw [sqlNext, labelled, if_pos hlength]
      exact ⟨trivial, h.tail⟩
    · rw [sqlNext, labelled, if_neg hlength]
      exact ⟨hown _ rfl, trivial⟩
  · exact ⟨h e (.head _), trivial⟩
  · exact ⟨trivial, h.tail⟩

theorem errorsIn_sqlExecuting (g : Setting) (token : Bool) (columns : List String)
    (connection : String) (delay : Nat) {reply : Reply} (h : reply.ErrorsIn P) :
    (step g token (.sqlExecuting columns connection delay reply)).ErrorsIn P := by
  cases delay with
  | succ delay => exact ⟨trivial, h⟩
  | zero =>
      cases reply with
      | never => exact ⟨trivial, h⟩
      | fails e =>
          exact ⟨h, trivial⟩
      | reader rows => exact ⟨trivial, h⟩

theorem errorsIn_sqlStart (hown : ∀ e : QueryError, e.isOwn = true → P e) {g : Setting}
    (hg : g.ErrorsIn P) (q : SqlQuery) : (sqlStart g q).ErrorsIn P := by
  unfold sqlStart
  split
  · rename_i e hcommand
    exact ⟨hown e (q.isOwn_of_command hcommand), trivial⟩
  · rename_i connection command hcommand
    obtain ⟨hrefusal, hreply⟩ := hg connection.name
    dsimp only
    split
    · rename_i e he
      exact ⟨hrefusal e he, trivial⟩
    · exact ⟨trivial, hreply⟩

end Operators

/-- **A round answers with errors of its own or with those of the sources beneath it.** -/
theorem errorsIn_step (hown : ∀ e : QueryError, e.isOwn = true → P e) {g : Setting}
    (hg : g.ErrorsIn P) (token : Bool) {s : Stream} (h : s.ErrorsIn P) :
    (step g token s).ErrorsIn P := by
  induction s with
  | values rest => cases rest <;> exact ⟨trivial, trivial⟩
  | script name rest => exact errorsIn_scriptNext name h
  | stalled => exact ⟨trivial, trivial⟩
  | failing e =>
      cases e with
      | none => exact ⟨trivial, trivial⟩
      | some e =>
          exact ⟨h, trivial⟩
  | counting counter inner ih => exact ⟨(ih h).answer, (ih h).next⟩
  | cancellable inner ih =>
      cases token with
      | true => exact ⟨trivial, trivial⟩
      | false => exact errorsIn_around (ih h) inner
  | filterIdle input p =>
      cases token with
      | true => exact ⟨trivial, trivial⟩
      | false =>
          rw [step, if_neg Bool.false_ne_true]
          rcases g.compile p 1 with ⟨e | c, events⟩
          · exact ⟨hown _ rfl, trivial⟩
          · exact ⟨trivial, errorsIn_stream h⟩
  | filterOpen c input ih =>
      cases token with
      | true => exact ⟨trivial, trivial⟩
      | false => exact errorsIn_filterNext hown c (ih h)
  | projectIdle input e =>
      cases token with
      | true => exact ⟨trivial, trivial⟩
      | false =>
          rw [step, if_neg Bool.false_ne_true]
          rcases g.compile e 1 with ⟨err | c, events⟩
          · exact ⟨hown _ rfl, trivial⟩
          · exact ⟨trivial, errorsIn_stream h⟩
  | projectOpen c input ih =>
      cases token with
      | true => exact ⟨trivial, trivial⟩
      | false => exact errorsIn_projectNext hown c (ih h)
  | joinIdle outer inner condition combine =>
      cases token with
      | true => exact ⟨trivial, trivial⟩
      | false =>
          rw [step, if_neg Bool.false_ne_true]
          rcases g.compileBoth condition combine 2 with ⟨e | ⟨c, d⟩, events⟩
          · exact ⟨hown _ rfl, trivial⟩
          · exact ⟨trivial, h.2, errorsIn_stream h.1⟩
  | joinOuter inner c d outer ih =>
      cases token with
      | true => exact ⟨trivial, trivial⟩
      | false => exact errorsIn_joinOuterNext h.1 c d (ih h.2)
  | joinInner inner c d outer row current _ ih =>
      cases token with
      | true => exact ⟨trivial, trivial⟩
      | false => exact errorsIn_joinInnerNext hown h.1 c d h.2.1 row (ih h.2.2)
  | sqlIdle q => exact errorsIn_sqlStart hown hg q
  | sqlExecuting columns connection delay reply =>
      exact errorsIn_sqlExecuting g token columns connection delay h
  | sqlReading columns connection rest => exact errorsIn_sqlNext hown columns connection h
  | closed => exact ⟨trivial, trivial⟩

theorem errorsIn_poll (hown : ∀ e : QueryError, e.isOwn = true → P e) (g : Setting) (token : Bool)
    (s : Stream) (hg : g.ErrorsIn P) (h : s.ErrorsIn P) :
    AnswerIn P (some (poll g token s).answer) ∧ (poll g token s).next.ErrorsIn P := by
  fun_induction poll g token s with
  | case1 g s answer next events hs =>
      have hround := errorsIn_step hown hg token h
      rw [hs] at hround
      exact ⟨hround.answer, hround.next⟩
  | case2 g s next events hs rest ih =>
      have hround := errorsIn_step hown hg token h
      rw [hs] at hround
      exact ih (hg.recordAll events) hround.next

/-- An error that streams do not raise themselves is an answer only if a source has it. -/
theorem errorsIn_pollAll (hown : ∀ e : QueryError, e.isOwn = true → P e)
    {occasions : List Occasion} (hg : ∀ o ∈ occasions, o.setting.ErrorsIn P) {s : Stream}
    (h : s.ErrorsIn P) {e : QueryError} (he : .error e ∈ (s.pollAll occasions).answers) : P e := by
  induction occasions generalizing s with
  | nil => cases he
  | cons o rest ih =>
      obtain ⟨hanswer, hnext⟩ :=
        errorsIn_poll hown o.setting o.cancelled s (hg o (.head _)) h
      rcases List.mem_cons.mp he with he | he
      · rw [← he] at hanswer
        exact hanswer
      · exact ih (fun o' ho' => hg o' (.tail _ ho')) hnext he

end Stream

end RowQuery
