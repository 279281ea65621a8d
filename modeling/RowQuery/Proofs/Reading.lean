import RowQuery.Proofs.Pipeline

set_option autoImplicit false

/-! # Reading a table

What the stream of a table answers is fixed by its first poll. The command is rendered then, and the
connection is asked to execute it; there are three things that can go wrong before a row is read,
and they are met in this order: the command cannot be rendered (`SqlQuery.prepare`), the connection
refuses to make one, the execution fails. After that the reader follows its script, and every row
must have as many values as the table has columns. `Behavior.results` says this without any state.

From the first poll on the stream is that of a source with a script, whatever the connection is told
to do later: it reads its trace (`Stream.trace`), with the pauses of the execution in front of those
of the reader. An execution that never completes is kept apart; it has no results.
-/

namespace RowQuery

/-! ## Results -/

/-- What an entry of a reader's script brings, if it is not a pause. -/
def Item.result? : Item Row → Option (Except QueryError Row)
  | .value row => some (.ok row)
  | .error e => some (.error e)
  | .pending => none

/-- A row with as many values as there are columns. -/
def Row.fits (columns : List String) : Except QueryError Row → Bool
  | .ok row => row.length == columns.length
  | .error _ => false

/-- The answer with which a table delivers what its reader brings. -/
def Row.answer (columns : List String) : Except QueryError Row → Answer
  | .ok row =>
    if row.length = columns.length then .row (.struct (columns.zip row))
    else .error (.rowWidth columns.length row.length)
  | .error e => .error e

/-- The answers with what a reader brings: the rows up to the first thing that is not a row of the
table, and then its error, or the end. -/
def delivered (columns : List String) (results : List (Except QueryError Row)) : List Answer :=
  (results.takeWhile (Row.fits columns)).map (Row.answer columns) ++
    [((results.dropWhile (Row.fits columns)).head?.map (Row.answer columns)).getD .finished]

/-- The answers to a command that a connection is asked for, pauses aside. -/
def Behavior.results (columns : List String) (b : Behavior) : List Answer :=
  match b.refusal, b.reply with
  | some e, _ => [.error e]
  | none, .never => []
  | none, .fails e => [.error e]
  | none, .reader entries => delivered columns (entries.filterMap Item.result?)

/-- The answers of a table whose command has been rendered with this result. -/
def tableResults (columns : List String) (rendered : Except QueryError PreparedCommand)
    (b : Behavior) : List Answer :=
  match rendered with
  | .error e => [.error e]
  | .ok _ => b.results columns

/-- A run of polls brings these results: any number of polls brings a part of them from the front,
and enough polls bring all, up to the first error or end and pauses aside. -/
def Brings (answers : List Setting → List Answer) (results : List Answer) : Prop :=
  ∃ enough : Nat, ∀ settings : List Setting,
    upToLast (withoutPending (answers settings)) <+: results ∧
    (enough ≤ settings.length → upToLast (withoutPending (answers settings)) = results)

theorem delivered_cons_of_fits {columns : List String} {result : Except QueryError Row}
    {rest : List (Except QueryError Row)} (h : Row.fits columns result = true) :
    delivered columns (result :: rest) = Row.answer columns result :: delivered columns rest := by
  rw [delivered, List.takeWhile_cons_of_pos h, List.dropWhile_cons_of_pos h]
  rfl

theorem delivered_cons_of_not_fits {columns : List String} {result : Except QueryError Row}
    {rest : List (Except QueryError Row)} (h : ¬ Row.fits columns result = true) :
    delivered columns (result :: rest) = [Row.answer columns result] := by
  rw [delivered, List.takeWhile_cons_of_neg h, List.dropWhile_cons_of_neg h]
  rfl

/-- As a script of elements, the script of a reader lists what is delivered of it. -/
theorem answers_ofScript (columns : List String) (entries : List (Item Row)) :
    (Listing.ofScript (entries.map (Item.labelled columns))).answers
      = delivered columns (entries.filterMap Item.result?) := by
  induction entries with
  | nil => rfl
  | cons entry rest ih =>
      cases entry with
      | pending => exact ih
      | error e =>
          have hfits : ¬ Row.fits columns (.error e) = true := Bool.false_ne_true
          exact (delivered_cons_of_not_fits hfits).symm
      | value row =>
          show (Listing.ofScript (Item.labelled columns (.value row) :: _)).answers
            = delivered columns (.ok row :: rest.filterMap Item.result?)
          have hfits : Row.fits columns (.ok row) = true ↔ row.length = columns.length :=
            beq_iff_eq
          by_cases hwidth : row.length = columns.length
          · rw [delivered_cons_of_fits (hfits.mpr hwidth), ← ih, Item.labelled,
              Stream.labelled, if_pos hwidth, Row.answer, if_pos hwidth]
            rfl
          · rw [delivered_cons_of_not_fits (mt hfits.mp hwidth), Item.labelled,
              Stream.labelled, if_neg hwidth, Row.answer, if_neg hwidth]
            rfl

/-- What an execution that completes has to answer, pauses aside. -/
theorem answers_executed (columns : List String) (delay : Nat) {reply : Reply}
    (h : reply.Completes) :
    (Listing.delayed delay (reply.trace columns)).settled.answers
      = Behavior.results columns ⟨none, delay, reply⟩ := by
  rw [Listing.settled_delayed]
  cases reply with
  | never => exact absurd h id
  | fails e => rfl
  | reader entries =>
      rw [Reply.trace, Listing.settled_replay]
      exact answers_ofScript columns entries

/-! ## The first poll -/

namespace SqlQuery

/-- A rendered command, as the query issues it. -/
def issued (q : SqlQuery) (prepared : PreparedCommand) : IssuedCommand :=
  ⟨prepared.text, prepared.parameters, some q.options.commandTimeout⟩

/-- A query issues the command that it renders to, to the connection at its root. -/
theorem command_eq {q : SqlQuery} {source : TableSource} (h : q.node.root = .ok source) :
    q.command = q.prepare.map (fun prepared => (source.connection, q.issued prepared)) := by
  rw [command, h]
  cases q.prepare <;> rfl

theorem columns_eq {q : SqlQuery} {source : TableSource} (h : q.node.root = .ok source) :
    q.columns = source.table.columnNames := by
  rw [columns, h]

end SqlQuery

namespace Stream

/-- A command that is not rendered is not asked for. -/
theorem step_sqlIdle_of_error (setting : Setting) (token : Bool) {q : SqlQuery} {e : QueryError}
    (h : q.prepare = .error e) :
    step setting token (.sqlIdle q) = ⟨some (.error e), .closed, []⟩ := by
  obtain ⟨source, hroot⟩ := q.node.exists_root
  rw [step, sqlStart, SqlQuery.command_eq hroot, h]
  rfl

section Prepared

variable {setting : Setting} (token : Bool) {q : SqlQuery} {source : TableSource}
  {prepared : PreparedCommand} (hroot : q.node.root = .ok source) (h : q.prepare = .ok prepared)

include hroot h

/-- The connection is asked for a command, and may refuse to make one. -/
theorem step_sqlIdle_of_refusal {e : QueryError}
    (hrefusal : (setting.behavior source.connection.name).refusal = some e) :
    step setting token (.sqlIdle q)
      = ⟨some (.error e), .closed, [.requested source.connection.name]⟩ := by
  rw [step, sqlStart, SqlQuery.command_eq hroot, h]
  simp only [Except.map, hrefusal]

/-- Otherwise it executes the command, and how it answers now is how the execution goes. -/
theorem step_sqlIdle_of_ok
    (hrefusal : (setting.behavior source.connection.name).refusal = none) :
    step setting token (.sqlIdle q)
      = ⟨none,
          .sqlExecuting source.table.columnNames source.connection.name
            (setting.behavior source.connection.name).delay
            (setting.behavior source.connection.name).reply,
          [.requested source.connection.name,
            .executed source.connection.name (q.issued prepared)]⟩ := by
  rw [step, sqlStart, SqlQuery.command_eq hroot, h]
  simp only [Except.map, hrefusal, SqlQuery.columns_eq hroot]

end Prepared

/-- The adapter lets a round pass that does not end what is inside. -/
theorem step_cancellable_of_none {setting : Setting} {inner next : Stream} {events : List Event}
    (h : step setting false inner = ⟨none, next, events⟩) :
    step setting false (.cancellable inner) = ⟨none, .cancellable next, events⟩ := by
  rw [step, h]
  rfl

theorem step_cancellable_of_error {setting : Setting} {inner next : Stream} {events : List Event}
    {e : QueryError} (h : step setting false inner = ⟨some (.error e), next, events⟩) :
    step setting false (.cancellable inner) = ⟨some (.error e), .cancellable next, events⟩ := by
  rw [step, h]
  rfl

/-! ## The end of a table -/

/-- The stream of a table that has not ended, without the adapter around it. -/
def readsTable : Stream → Bool
  | .sqlIdle _ => true
  | .sqlExecuting .. => true
  | .sqlReading .. => true
  | _ => false

/-- The stream of a table that has not ended. -/
def isTable : Stream → Bool
  | .cancellable inner => inner.readsTable
  | _ => false

/-- A stream that has ended, with or without the adapter around it. -/
def hasEnded : Stream → Bool
  | .closed => true
  | .cancellable .closed => true
  | _ => false

/-- Nothing happens any more in a stream that has ended. -/
theorem step_hasEnded (setting : Setting) (token : Bool) {s : Stream} (h : s.hasEnded = true) :
    step setting token s = ⟨some .finished, .closed, []⟩ := by
  cases s with
  | closed => rfl
  | cancellable inner =>
      cases inner with
      | closed => cases token <;> rfl
      | _ => cases h
  | _ => cases h

theorem pollAll_hasEnded (occasions : List Occasion) {s : Stream} (h : s.hasEnded = true) :
    (s.pollAll occasions).answers = List.replicate occasions.length .finished ∧
      (s.pollAll occasions).events = [] := by
  cases occasions with
  | nil => exact ⟨rfl, rfl⟩
  | cons o rest =>
      rw [pollAll, poll_of_step_some (step_hasEnded o.setting o.cancelled h), pollAll_closed]
      exact ⟨rfl, rfl⟩

theorem closes_step_sqlIdle (setting : Setting) (token : Bool) (q : SqlQuery) :
    if (step setting token (.sqlIdle q)).answer.any Answer.isLast
    then (step setting token (.sqlIdle q)).next = .closed
    else (step setting token (.sqlIdle q)).next.readsTable = true := by
  obtain ⟨source, hroot⟩ := q.node.exists_root
  cases hprepare : q.prepare with
  | error e =>
      rw [step_sqlIdle_of_error setting token hprepare]
      rfl
  | ok prepared =>
      cases hrefusal : (setting.behavior source.connection.name).refusal with
      | some e =>
          rw [step_sqlIdle_of_refusal token hroot hprepare hrefusal]
          rfl
      | none =>
          rw [step_sqlIdle_of_ok token hroot hprepare hrefusal]
          rfl

/-- In each of its states a table closes with its last answer. -/
theorem closes_step (setting : Setting) (token : Bool) {s : Stream} (h : s.readsTable = true) :
    if (step setting token s).answer.any Answer.isLast then (step setting token s).next = .closed
    else (step setting token s).next.readsTable = true := by
  cases s with
  | sqlIdle q => exact closes_step_sqlIdle setting token q
  | sqlExecuting columns connection delay reply =>
      rcases step_sqlExecuting_cases setting token columns connection delay reply
        with ⟨delay', hr⟩ | ⟨e, hr⟩ | ⟨rows, hr⟩
      · rw [hr]
        rfl
      · rw [hr]
        rfl
      · rw [hr]
        rfl
  | sqlReading columns connection rest =>
      rw [step]
      rcases sqlNext_cases columns connection rest with ⟨a, ha, hr⟩ | ⟨a, more, ha, hr⟩
      · rw [hr, Option.any_some, if_pos ha]
      · rw [hr, Option.any_some, if_neg (by rw [ha]; exact Bool.false_ne_true)]
        rfl
  | _ => cases h

/-- The adapter lets the last answer through and holds on to what has closed, or drops it. -/
theorem ends_step (setting : Setting) (token : Bool) {s : Stream} (h : s.isTable = true) :
    if (step setting token s).answer.any Answer.isLast
    then (step setting token s).next.hasEnded = true
    else (step setting token s).next.isTable = true := by
  cases s with
  | cancellable inner =>
      have hinner := closes_step setting token h
      rw [step]
      generalize step setting token inner = r at hinner ⊢
      obtain ⟨answer, next, events⟩ := r
      cases token with
      | true => rfl
      | false =>
          rcases answer with _ | v | e | _ | _
          · exact hinner
          · exact hinner
          · exact congrArg (fun inner => (Stream.cancellable inner).hasEnded) hinner
          · exact hinner
          · rfl
  | _ => cases h

/-- After its last answer a table has ended. -/
theorem hasEnded_of_isLast (occasions : List Occasion) {s : Stream} (h : s.isTable = true)
    (hlast : ∃ a ∈ (s.pollAll occasions).answers, a.isLast = true) :
    (s.pollAll occasions).next.hasEnded = true := by
  induction occasions generalizing s with
  | nil =>
      obtain ⟨a, ha, -⟩ := hlast
      cases ha
  | cons o rest ih =>
      have hpoll := poll_ends (E := fun s => s.hasEnded = true) (P := fun s => s.isTable = true)
        (fun g t s hs => ends_step g t hs) o.setting o.cancelled h
      by_cases hfirst : (poll o.setting o.cancelled s).answer.isLast = true
      · rw [if_pos hfirst] at hpoll
        refine pollAll_keeps (P := fun s => s.hasEnded = true) ?_ rest _ hpoll
        intro g t s hs
        rw [step_hasEnded g t hs]
        rfl
      · rw [if_neg hfirst] at hpoll
        obtain ⟨a, ha, halast⟩ := hlast
        rcases List.mem_cons.mp ha with rfl | ha
        · exact absurd halast hfirst
        · exact ih hpoll ⟨a, ha, halast⟩

/-! ## The answers of a table -/

/-- What follows scripts brings its trace. -/
theorem brings_of_replays {s : Stream} (h : s.Replays) :
    Brings (fun settings => (s.pollAll (settings.map .live)).answers) s.trace.settled.answers := by
  refine ⟨s.trace.answersWithPauses.length, ?_⟩
  intro settings
  rw [Pipeline.upToLast_withoutPending, upToLast_pollAll settings h,
    ← Pipeline.withoutPending_answersWithPauses]
  refine ⟨(List.take_prefix _ _).filter _, ?_⟩
  intro henough
  rw [List.take_of_length_le henough]

/-- While an execution does not complete, nothing is ready. -/
theorem pollAll_never (columns : List String) (connection : String) (delay : Nat)
    (settings : List Setting) :
    ((Stream.cancellable (.sqlExecuting columns connection delay .never)).pollAll
      (settings.map .live)).answers = List.replicate settings.length .pending := by
  induction settings generalizing delay with
  | nil => rfl
  | cons setting rest ih =>
      obtain ⟨delay', hstep⟩ : ∃ delay', step setting false
          (.cancellable (.sqlExecuting columns connection delay .never))
            = ⟨some .pending, .cancellable (.sqlExecuting columns connection delay' .never),
                []⟩ := by
        cases delay with
        | zero => exact ⟨0, rfl⟩
        | succ delay => exact ⟨delay, rfl⟩
      rw [List.map_cons, pollAll]
      show (poll setting false _).answer :: _ = _
      rw [Occasion.live, poll_of_step_some hstep]
      exact congrArg (List.cons Answer.pending) (ih delay')

/-- Once its command has been executed, a table brings what the execution comes to. -/
theorem brings_executing (columns : List String) (connection : String) (delay : Nat)
    (reply : Reply) :
    Brings (fun settings => ((Stream.cancellable (.sqlExecuting columns connection delay
        reply)).pollAll (settings.map .live)).answers)
      (Behavior.results columns ⟨none, delay, reply⟩) := by
  by_cases hreply : reply.Completes
  · rw [← answers_executed columns delay hreply]
    exact brings_of_replays (s := .cancellable (.sqlExecuting columns connection delay reply))
      hreply
  · cases reply with
    | never =>
        -- all answers are pauses
        refine ⟨0, ?_⟩
        intro settings
        dsimp only
        rw [pollAll_never, withoutPending, List.filter_replicate_of_neg (by simp)]
        exact ⟨List.nil_prefix, fun _ => rfl⟩
    | fails e => exact absurd trivial hreply
    | reader rows => exact absurd trivial hreply

/-- A poll that is answered with an error brings only that. -/
theorem brings_error {answers : List Setting → List Answer} {e : QueryError}
    (h : ∀ settings, ∃ rest, answers settings = .error e :: rest) : Brings answers [.error e] := by
  refine ⟨0, ?_⟩
  intro settings
  obtain ⟨rest, hrest⟩ := h settings
  rw [hrest]
  exact ⟨List.prefix_refl _, fun _ => rfl⟩

theorem brings_cons {answers : List Setting → List Answer} {results : List Answer}
    (h : Brings answers results) (first : Setting) :
    Brings (fun later => answers (first :: later)) results := by
  obtain ⟨enough, hall⟩ := h
  refine ⟨enough, ?_⟩
  intro later
  obtain ⟨hpart, heq⟩ := hall (first :: later)
  exact ⟨hpart, fun henough => heq (Nat.le_succ_of_le henough)⟩

end Stream

namespace SqlQuery

/-- The first poll of a table decides about its results: how the connection answers then is what
counts. -/
theorem brings_first {q : SqlQuery} {source : TableSource} (hroot : q.node.root = .ok source)
    (first : Setting) :
    Brings (fun later => (Query.sql q).answersUnder (first :: later))
      (tableResults source.table.columnNames q.prepare
        (first.behavior source.connection.name)) := by
  have hanswers : ∀ later, (Query.sql q).answersUnder (first :: later)
      = (Stream.poll first false (.cancellable (.sqlIdle q))).answer ::
          ((Stream.poll first false (.cancellable (.sqlIdle q))).next.pollAll
            (later.map .live)).answers := fun _ => rfl
  cases hprepare : q.prepare with
  | error e =>
      apply Stream.brings_error
      intro later
      have hstart := Stream.step_sqlIdle_of_error first false hprepare
      rw [hanswers, Stream.poll_of_step_some (Stream.step_cancellable_of_error hstart)]
      exact ⟨_, rfl⟩
  | ok prepared =>
      cases hrefusal : (first.behavior source.connection.name).refusal with
      | some e =>
          have hstart := Stream.step_sqlIdle_of_refusal false hroot hprepare hrefusal
          have hresults : tableResults source.table.columnNames (.ok prepared)
              (first.behavior source.connection.name) = [.error e] := by
            simp only [tableResults, Behavior.results, hrefusal]
          rw [hresults]
          apply Stream.brings_error
          intro later
          rw [hanswers, Stream.poll_of_step_some (Stream.step_cancellable_of_error hstart)]
          exact ⟨_, rfl⟩
      | none =>
          have hstart := Stream.step_sqlIdle_of_ok false hroot hprepare hrefusal
          have hresults : tableResults source.table.columnNames (.ok prepared)
              (first.behavior source.connection.name)
                = Behavior.results source.table.columnNames
                    ⟨none, (first.behavior source.connection.name).delay,
                      (first.behavior source.connection.name).reply⟩ := by
            simp only [tableResults, Behavior.results, hrefusal]
          rw [hresults]
          -- the first poll goes on with waiting for the execution
          have hpoll := Stream.poll_of_step_none (Stream.step_cancellable_of_none hstart)
          have hexecuting := Stream.brings_executing source.table.columnNames
            source.connection.name (first.behavior source.connection.name).delay
            (first.behavior source.connection.name).reply
          simp only [hanswers, hpoll]
          exact Stream.brings_cons hexecuting (first.recordAll
            [.requested source.connection.name,
              .executed source.connection.name (q.issued prepared)])

/-- A command that is not rendered is never asked for. -/
theorem events_of_error {q : SqlQuery} {e : QueryError} (h : q.prepare = .error e)
    (occasions : List Occasion) : ((Query.sql q).stream.pollAll occasions).events = [] := by
  cases occasions with
  | nil => rfl
  | cons o rest =>
      obtain ⟨setting, token⟩ := o
      obtain ⟨answer, next, hended, hstep⟩ : ∃ answer next, Stream.hasEnded next = true ∧
          Stream.step setting token (.cancellable (.sqlIdle q)) = ⟨some answer, next, []⟩ := by
        cases token with
        | true => exact ⟨.finished, .closed, rfl, rfl⟩
        | false =>
            have hstart := Stream.step_sqlIdle_of_error setting false h
            exact ⟨.error e, _, rfl, Stream.step_cancellable_of_error hstart⟩
      rw [Query.stream, Stream.pollAll, Stream.poll_of_step_some hstep]
      exact (Stream.pollAll_hasEnded rest hended).2

/-- A table with filters that have been applied to it. -/
def filtered (connection : Connection) (table : Table) (options : SqlOptions)
    (filters : List Expr) : SqlQuery :=
  filters.foldl filter (.new connection table options)

theorem root_filtered (connection : Connection) (table : Table) (options : SqlOptions)
    (filters : List Expr) :
    (filtered connection table options filters).node.root = .ok ⟨connection, table⟩ := by
  rw [filtered, root_foldl_filter]
  rfl

/-- A table absorbs its filters. -/
theorem foldl_filter_sql (q : SqlQuery) (filters : List Expr) :
    filters.foldl Query.filter (.sql q) = .sql (filters.foldl filter q) := by
  induction filters generalizing q with
  | nil => rfl
  | cons p rest ih => exact ih (q.filter p)

end SqlQuery

/-! ## Enumerating a table -/

/-- **A table answers with what its connection gives.** How the connection answers is asked at the
first poll; how it answers later does not matter. Pauses aside, the answers are those of
`tableResults`: an error of rendering, of making the command or of the execution, in this order, or
else the rows that fit the columns, up to the first entry of the reader that is none. Where the
command cannot be rendered the connection is not asked for one. After its first error or end the
table answers that it has ended, and the reader is not polled again. -/
theorem table_answers_results (connection : Connection) (table : Table) (options : SqlOptions)
    (filters : List Expr) :
    filters.foldl Query.filter (.sql (.new connection table options))
        = .sql (.filtered connection table options filters) ∧
      (∀ first : Setting, Brings
        (fun later => (Query.sql (.filtered connection table options filters)).answersUnder
          (first :: later))
        (tableResults table.columnNames
          (SqlQuery.filtered connection table options filters).prepare
          (first.behavior connection.name))) ∧
      (∀ e, (SqlQuery.filtered connection table options filters).prepare = .error e →
        ∀ occasions, ((Query.sql (.filtered connection table options filters)).stream.pollAll
          occasions).events = []) ∧
      ∀ occasions : List Occasion,
        (∃ a ∈ ((Query.sql (.filtered connection table options filters)).stream.pollAll
          occasions).answers, a.isLast = true) →
        ∀ later, (((Query.sql (.filtered connection table options filters)).stream.pollAll
              occasions).next.pollAll later).answers
            = List.replicate later.length .finished ∧
          (((Query.sql (.filtered connection table options filters)).stream.pollAll
              occasions).next.pollAll later).events = [] := by
  refine ⟨SqlQuery.foldl_filter_sql _ filters, ?_, ?_, ?_⟩
  · exact SqlQuery.brings_first (SqlQuery.root_filtered connection table options filters)
  · intro e h
    exact SqlQuery.events_of_error h
  · intro occasions hlast later
    exact Stream.pollAll_hasEnded later (Stream.hasEnded_of_isLast occasions rfl hlast)

/-- A column name that occurs twice is kept twice, and nothing counts after a row of another width.
-/
example : delivered ["a", "a"]
    [.ok [.int64 1, .int64 2], .ok [.int64 3], .ok [.int64 4, .int64 5]]
      = [.row (.struct [("a", .int64 1), ("a", .int64 2)]), .error (.rowWidth 2 1)] := by
  rfl

end RowQuery
