import RowQuery.Proofs.Cancellation

set_option autoImplicit false

/-! # First polls of tables

The tables that a stream holds and has not polled yet (`Stream.unpolled`) are there because streams
of them have been opened (`Stream.openings`), and they go when they are polled for the first time
(`Stream.firstPolls`). In every round the three are balanced (`Stream.settles_step`): a table that
was there or has been opened is polled in the round, or it is still there afterwards.

No such table is left behind when a poll is answered, because a stream goes on to what it has just
opened before it answers. Hence in a poll that does not find the token cancelled the tables polled
for the first time are those that were there before and those opened on the way, each of them once
(`Stream.polledFirst_live`). A poll that finds it cancelled polls none.
-/

namespace RowQuery

/-- A query of which a stream is opened. -/
structure Opening where
  query : Query
  /-- Whether it is the inner side of a join, opened for one outer row. -/
  perRow : Bool

namespace Stream

/-! ## Tables -/

/-- The tables whose streams are held and have not been polled yet. -/
def unpolled (perRow : Bool) : Stream → List TableStream
  | .sqlIdle q => [⟨q, perRow⟩]
  | .counting _ inner => unpolled perRow inner
  | .cancellable inner => unpolled perRow inner
  | .filterOpen _ input => unpolled false input
  | .projectOpen _ input => unpolled false input
  | .joinOuter _ _ _ outer => unpolled false outer
  | .joinInner _ _ _ outer _ current => unpolled false outer ++ unpolled true current
  | _ => []

/-- The inner query of a join, if the outer stream has given it a row. -/
def pulled (inner : Query) : Option Answer → List Opening
  | some (.row _) => [⟨inner, true⟩]
  | _ => []

/-- The queries of which a round opens streams: the input of an operator whose expressions compile,
and the inner side of a join that takes an outer row. -/
def openings (setting : Setting) (token : Bool) : Stream → List Opening
  | .counting _ inner => openings setting token inner
  | .cancellable inner => if token then [] else openings setting token inner
  | .filterIdle input p =>
    if token then [] else if (setting.compile p 1).1.isOk then [⟨input, false⟩] else []
  | .filterOpen _ input => if token then [] else openings setting token input
  | .projectIdle input e =>
    if token then [] else if (setting.compile e 1).1.isOk then [⟨input, false⟩] else []
  | .projectOpen _ input => if token then [] else openings setting token input
  | .joinIdle outer _ condition combine =>
    if token then []
    else if (setting.compileBoth condition combine 2).1.isOk then [⟨outer, false⟩] else []
  | .joinOuter inner _ _ outer =>
    if token then []
    else openings setting token outer ++ pulled inner (step setting token outer).answer
  | .joinInner _ _ _ _ _ current => if token then [] else openings setting token current
  | _ => []

end Stream

/-- The tables whose streams an opening puts there to be polled. -/
def Opening.tables (o : Opening) : List TableStream := o.query.stream.unpolled o.perRow

namespace Stream

/-- A stream that goes through inner elements has polled everything on its outer side. -/
def Prompt : Stream → Prop
  | .counting _ inner => Prompt inner
  | .cancellable inner => Prompt inner
  | .filterOpen _ input => Prompt input
  | .projectOpen _ input => Prompt input
  | .joinOuter _ _ _ outer => Prompt outer
  | .joinInner _ _ _ outer _ current =>
    Prompt outer ∧ outer.unpolled false = [] ∧ Prompt current
  | _ => True

theorem prompt_stream (q : Query) : q.stream.Prompt := by
  induction q with
  | script name items observesToken => cases observesToken <;> trivial
  | counting counter input ih => exact ih
  | absorbing name supported refusal input ih => exact ih
  | declining supported input ih => exact ih
  | _ => trivial

/-! ## Leaves -/

/-- A leaf, or what is left of one. The stream of a table becomes a leaf with its first poll. -/
def isLeaf : Stream → Bool
  | .values _ => true
  | .script .. => true
  | .stalled => true
  | .failing _ => true
  | .sqlExecuting .. => true
  | .sqlReading .. => true
  | .closed => true
  | _ => false

theorem unpolled_of_isLeaf {s : Stream} (h : s.isLeaf = true) (perRow : Bool) :
    s.unpolled perRow = [] := by
  cases s <;> first | rfl | cases h

theorem firstPolls_of_isLeaf {s : Stream} (h : s.isLeaf = true) (token perRow : Bool) :
    s.firstPolls token perRow = [] := by
  cases s <;> first | rfl | cases h

theorem prompt_of_isLeaf {s : Stream} (h : s.isLeaf = true) : s.Prompt := by
  cases s <;> trivial

/-- A leaf can only be polled. -/
theorem step_isLeaf (setting : Setting) (token : Bool) {s : Stream} (h : s.isLeaf = true) :
    (step setting token s).next.isLeaf = true ∧
      ∀ e ∈ (step setting token s).events, ∃ leaf, e = .polled leaf := by
  have hpolled : ∀ leaf, ∀ e ∈ [Event.polled leaf], ∃ leaf, e = .polled leaf :=
    fun leaf e he => ⟨leaf, List.mem_singleton.mp he⟩
  have hnothing : ∀ e ∈ ([] : List Event), ∃ leaf, e = .polled leaf := by
    intro e he
    cases he
  cases s with
  | values rest => cases rest <;> exact ⟨rfl, hpolled _⟩
  | script name rest => rcases rest with _ | ⟨_ | _ | _, rest⟩ <;> exact ⟨rfl, hpolled _⟩
  | stalled => exact ⟨rfl, hpolled _⟩
  | failing e => cases e <;> exact ⟨rfl, hpolled _⟩
  | sqlExecuting columns connection delay reply =>
      rcases step_sqlExecuting_cases setting token columns connection delay reply
        with ⟨delay', hr⟩ | ⟨e, hr⟩ | ⟨rows, hr⟩
      · rw [hr]
        exact ⟨rfl, hnothing⟩
      · rw [hr]
        exact ⟨rfl, hnothing⟩
      · rw [hr]
        exact ⟨rfl, hnothing⟩
  | sqlReading columns connection rest =>
      rw [step]
      rcases sqlNext_cases columns connection rest with ⟨a, -, hr⟩ | ⟨a, more, -, hr⟩
      · rw [hr]
        exact ⟨rfl, hpolled _⟩
      · rw [hr]
        exact ⟨rfl, hpolled _⟩
  | closed => exact ⟨rfl, hnothing⟩
  | _ => cases h

/-- It has no table afterwards either. -/
theorem unpolled_step_isLeaf (setting : Setting) (token perRow : Bool) {s : Stream}
    (h : s.isLeaf = true) :
    (step setting token s).next.unpolled perRow = [] ∧ (step setting token s).next.Prompt := by
  have hnext := (step_isLeaf setting token h).1
  exact ⟨unpolled_of_isLeaf hnext perRow, prompt_of_isLeaf hnext⟩

/-! ## The balance of a round -/

/-- Of the tables that were there `before` a round and those `opened` in it, some are polled `first`
in the round, and the others are still there after it. If the round comes to an answer, there are no
others. -/
structure Settles (perRow : Bool) (before first opened : List TableStream) (r : Round Stream) :
    Prop where
  balance : first ++ r.next.unpolled perRow = before ++ opened
  answered : r.answer.isSome = true → r.next.unpolled perRow = []
  prompt : r.next.Prompt

namespace Settles

variable {perRow inside : Bool} {before first opened : List TableStream} {r : Round Stream}

/-- What is done with an answer does not bring a table back. -/
theorem of_isSome (h : Settles inside before first opened r) (hanswer : r.answer.isSome = true)
    {r' : Round Stream} (hnext : r'.next.unpolled perRow = []) (hprompt : r'.next.Prompt) :
    Settles perRow before first opened r' := by
  have hbalance := h.balance
  rw [h.answered hanswer] at hbalance
  refine ⟨?_, fun _ => hnext, hprompt⟩
  rw [hnext]
  exact hbalance

/-- Nor does it to go round the loop once more. -/
theorem of_none (h : Settles inside before first opened r) {next : Stream} {events : List Event}
    (hnext : next.unpolled perRow = r.next.unpolled inside) (hprompt : next.Prompt) :
    Settles perRow before first opened ⟨none, next, events⟩ := by
  refine ⟨?_, fun hsome => absurd hsome Bool.false_ne_true, hprompt⟩
  rw [hnext]
  exact h.balance

theorem filterNext (h : Settles false before first opened r) (c : CompiledExpr) :
    Settles perRow before first opened (filterNext c r) := by
  obtain ⟨answer, next, events⟩ := r
  cases answer with
  | none => exact h.of_none rfl h.prompt
  | some a =>
      rcases filterNext_cases c ⟨some a, next, events⟩ with ⟨b, -, hr⟩ | ⟨answer, -, hr⟩
      · rw [hr]
        exact h.of_isSome rfl rfl trivial
      · rw [hr]
        exact h.of_isSome rfl (h.answered rfl) h.prompt

theorem projectNext (h : Settles false before first opened r) (c : CompiledExpr) :
    Settles perRow before first opened (projectNext c r) := by
  obtain ⟨answer, next, events⟩ := r
  cases answer with
  | none => exact h.of_none rfl h.prompt
  | some a =>
      rcases projectNext_cases c ⟨some a, next, events⟩ with ⟨b, -, hr⟩ | ⟨answer, -, hr⟩
      · rw [hr]
        exact h.of_isSome rfl rfl trivial
      · rw [hr]
        exact h.of_isSome rfl (h.answered rfl) h.prompt

/-- A row of the outer stream brings the tables of a new inner stream, and there are no others. -/
theorem joinOuterNext (h : Settles false before first opened r) (inner : Query)
    (c d : CompiledExpr) :
    Settles perRow before first (opened ++ (pulled inner r.answer).flatMap Opening.tables)
      (joinOuterNext inner c d r) := by
  obtain ⟨answer, next, events⟩ := r
  -- without a row nothing is opened
  have hsame : ∀ {r' : Round Stream}, Settles perRow before first opened r' →
      Settles perRow before first (opened ++ []) r' := by
    intro r' hr'
    rwa [List.append_nil]
  rcases answer with _ | v | e | _ | _
  · exact hsame (h.of_none rfl h.prompt)
  · have hnext := h.answered rfl
    have hbalance := h.balance
    rw [hnext, List.append_nil] at hbalance
    refine ⟨?_, fun hsome => absurd hsome Bool.false_ne_true, h.prompt, hnext, prompt_stream inner⟩
    show first ++ (next.unpolled false ++ inner.stream.unpolled true)
      = before ++ (opened ++ (inner.stream.unpolled true ++ []))
    rw [hnext, List.nil_append, List.append_nil, hbalance, List.append_assoc]
  · exact hsame (h.of_isSome rfl rfl trivial)
  · exact hsame (h.of_isSome rfl (h.answered rfl) h.prompt)
  · exact hsame (h.of_isSome rfl rfl trivial)

theorem joinInnerNext (h : Settles true before first opened r) (inner : Query)
    (c d : CompiledExpr) {outer : Stream} (row : Value) (houter : outer.Prompt)
    (hpolled : outer.unpolled false = []) :
    Settles perRow before first opened (joinInnerNext inner c d outer row r) := by
  have hjoin : ∀ current : Stream, (Stream.joinInner inner c d outer row current).unpolled perRow
      = current.unpolled true := by
    intro current
    rw [unpolled, hpolled, List.nil_append]
  obtain ⟨answer, next, events⟩ := r
  cases answer with
  | none => exact h.of_none (hjoin next) ⟨houter, hpolled, h.prompt⟩
  | some a =>
      rcases joinInnerNext_cases inner c d outer row ⟨some a, next, events⟩
        with ⟨b, -, hr⟩ | ⟨answer, -, hr⟩ | hr
      · rw [hr]
        exact h.of_isSome rfl rfl trivial
      · rw [hr]
        exact h.of_isSome rfl ((hjoin next).trans (h.answered rfl)) ⟨houter, hpolled, h.prompt⟩
      · rw [hr]
        exact h.of_isSome rfl hpolled houter

theorem around (h : Settles perRow before first opened r) (release : Stream → List Event)
    (inner : Stream) :
    Settles perRow before first opened
      ((Cancellable.around release false inner (fun _ => r)).map adapter) := by
  obtain ⟨answer, next, events⟩ := r
  rcases answer with _ | v | e | _ | _
  · exact h.of_none rfl h.prompt
  · exact h.of_isSome rfl (h.answered rfl) h.prompt
  · exact h.of_isSome rfl (h.answered rfl) h.prompt
  · exact h.of_isSome rfl (h.answered rfl) h.prompt
  · exact h.of_isSome rfl rfl trivial

/-- A stream without a table that has not been polled. -/
theorem nothing (h : r.next.unpolled perRow = [] ∧ r.next.Prompt) :
    Settles perRow [] [] [] r := by
  refine ⟨?_, fun _ => h.1, h.2⟩
  rw [h.1]

/-- The input of an operator is opened. -/
theorem opening {input : Query} {next : Stream} {events : List Event}
    (hnext : next.unpolled perRow = input.stream.unpolled false) (hprompt : next.Prompt) :
    Settles perRow [] [] ([⟨input, false⟩].flatMap Opening.tables) ⟨none, next, events⟩ := by
  refine ⟨?_, fun hsome => absurd hsome Bool.false_ne_true, hprompt⟩
  rw [List.flatMap_singleton]
  exact hnext

/-- The table that is polled is the one that was there. -/
theorem polled {q : SqlQuery} (hnext : r.next.unpolled perRow = []) (hprompt : r.next.Prompt) :
    Settles perRow [⟨q, perRow⟩] [⟨q, perRow⟩] [] r := by
  refine ⟨?_, fun _ => hnext, hprompt⟩
  rw [hnext]

end Settles

theorem settles_sqlStart (setting : Setting) (perRow : Bool) (q : SqlQuery) :
    Settles perRow [⟨q, perRow⟩] [⟨q, perRow⟩] [] (sqlStart setting q) := by
  unfold sqlStart
  split
  · exact .polled rfl trivial
  · dsimp only
    split <;> exact .polled rfl trivial

/-- **A round polls the tables that it has to poll for the first time, or keeps them.** -/
theorem settles_step (setting : Setting) (perRow : Bool) {s : Stream} (h : s.Prompt) :
    Settles perRow (s.unpolled perRow) (s.firstPolls false perRow)
      ((s.openings setting false).flatMap Opening.tables) (step setting false s) := by
  induction s generalizing perRow with
  | counting counter inner ih =>
      obtain ⟨hbalance, hanswered, hprompt⟩ := ih perRow h
      exact ⟨hbalance, hanswered, hprompt⟩
  | cancellable inner ih =>
      rw [step]
      exact (ih perRow h).around release inner
  | filterIdle input p =>
      rw [step, openings]
      rcases setting.compile p 1 with ⟨err | c, events⟩
      · exact .nothing ⟨rfl, trivial⟩
      · exact .opening rfl (prompt_stream input)
  | filterOpen c input ih => exact (ih false h).filterNext c
  | projectIdle input e =>
      rw [step, openings]
      rcases setting.compile e 1 with ⟨err | c, events⟩
      · exact .nothing ⟨rfl, trivial⟩
      · exact .opening rfl (prompt_stream input)
  | projectOpen c input ih => exact (ih false h).projectNext c
  | joinIdle outer inner condition combine =>
      rw [step, openings]
      rcases setting.compileBoth condition combine 2 with ⟨err | ⟨c, d⟩, events⟩
      · exact .nothing ⟨rfl, trivial⟩
      · exact .opening rfl (prompt_stream outer)
  | joinOuter inner c d outer ih =>
      show Settles _ _ _ (List.flatMap _ (openings setting false outer ++ _)) _
      rw [List.flatMap_append]
      exact (ih false h).joinOuterNext inner c d
  | joinInner inner c d outer row current _ ih =>
      obtain ⟨houter, hpolled, hcurrent⟩ := h
      rw [unpolled, hpolled, List.nil_append]
      exact (ih true hcurrent).joinInnerNext inner c d row houter hpolled
  | sqlIdle q => exact settles_sqlStart setting perRow q
  | _ => exact .nothing (unpolled_step_isLeaf setting false perRow rfl)

/-! ## Cancelled rounds -/

/-- A stream that finds its token cancelled polls no input. -/
theorem firstPolls_of_heedsToken {s : Stream} (h : s.heedsToken = true) (perRow : Bool) :
    s.firstPolls true perRow = [] := by
  cases s <;> first | rfl | cases h

/-- The stream of a table stays behind something that looks at the token. -/
theorem sheltered_step (setting : Setting) (token : Bool) {perRow : Bool} {s : Stream}
    (h : s.firstPolls true perRow = []) :
    (step setting token s).next.firstPolls true perRow = [] := by
  induction s with
  | counting counter inner ih => exact ih h
  | sqlIdle q => cases h
  | values | script | stalled | failing | sqlExecuting | sqlReading =>
      exact firstPolls_of_isLeaf (step_isLeaf setting token rfl).1 true perRow
  | _ => exact firstPolls_of_heedsToken (heedsToken_step setting token _ rfl) perRow

/-- A round that finds the token cancelled opens nothing, and holds no table afterwards that has not
been polled. -/
theorem unpolled_step_cancelled (setting : Setting) {perRow : Bool} {s : Stream}
    (h : s.firstPolls true perRow = []) :
    s.openings setting true = [] ∧ (step setting true s).next.unpolled perRow = [] ∧
      (step setting true s).next.Prompt := by
  induction s with
  | counting counter inner ih => exact ih h
  | sqlIdle q => cases h
  | values | script | stalled | failing | sqlExecuting | sqlReading =>
      exact ⟨rfl, unpolled_step_isLeaf setting true perRow rfl⟩
  | _ =>
      rw [step_cancelled setting rfl]
      exact ⟨rfl, rfl, trivial⟩

/-! ## Polls -/

/-- The queries of which a poll opens streams, in order. -/
def opened (setting : Setting) (token : Bool) (s : Stream) : List Opening :=
  (turns setting token s).flatMap (fun t => t.stream.openings t.setting token)

theorem opened_of_step_some {setting : Setting} {token : Bool} {s next : Stream} {answer : Answer}
    {events : List Event} (h : step setting token s = ⟨some answer, next, events⟩) :
    opened setting token s = s.openings setting token := by
  rw [opened, turns_of_step_some h, List.flatMap_singleton]

theorem opened_of_step_none {setting : Setting} {token : Bool} {s next : Stream}
    {events : List Event} (h : step setting token s = ⟨none, next, events⟩) :
    opened setting token s
      = s.openings setting token ++ opened (setting.recordAll events) token next := by
  rw [opened, turns_of_step_none h, List.flatMap_cons]
  rfl

/-- A stream as it comes about when a stream of a query is polled. -/
structure Orderly (s : Stream) : Prop where
  prompt : s.Prompt
  sheltered : s.firstPolls true false = []

theorem orderly_stream (q : Query) : q.stream.Orderly := by
  refine ⟨prompt_stream q, ?_⟩
  induction q with
  | script name items observesToken => cases observesToken <;> rfl
  | counting counter input ih => exact ih
  | absorbing name supported refusal input ih => exact ih
  | declining supported input ih => exact ih
  | _ => rfl

theorem orderly_step (setting : Setting) (token : Bool) {s : Stream} (h : s.Orderly) :
    (step setting token s).next.Orderly := by
  refine ⟨?_, sheltered_step setting token h.sheltered⟩
  cases token with
  | true => exact (unpolled_step_cancelled setting h.sheltered).2.2
  | false => exact (settles_step setting false h.prompt).prompt

/-- **A poll polls every table that is there to be polled for the first time, once.** These are the
tables whose streams were held before and those opened on the way. -/
theorem polledFirst_live (setting : Setting) {s : Stream} (h : s.Orderly) :
    polledFirst setting false s
        = s.unpolled false ++ (opened setting false s).flatMap Opening.tables ∧
      (poll setting false s).next.unpolled false = [] := by
  fun_induction poll setting false s with
  | case1 setting s answer next events hs =>
      have hround := settles_step setting false h.prompt
      rw [hs] at hround
      have hbalance := hround.balance
      rw [hround.answered rfl, List.append_nil] at hbalance
      rw [polledFirst_of_step_some hs, opened_of_step_some hs]
      exact ⟨hbalance, hround.answered rfl⟩
  | case2 setting s next events hs rest ih =>
      have hround := settles_step setting false h.prompt
      have hnext := orderly_step setting false h
      rw [hs] at hround hnext
      obtain ⟨hrest, hlast⟩ := ih hnext
      refine ⟨?_, hlast⟩
      rw [polledFirst_of_step_none hs, opened_of_step_none hs, List.flatMap_append]
      -- what the round leaves for later is polled in the rounds to come
      calc s.firstPolls false false ++ polledFirst (setting.recordAll events) false next
          = (s.firstPolls false false ++ next.unpolled false)
              ++ (opened (setting.recordAll events) false next).flatMap Opening.tables := by
            rw [hrest, List.append_assoc]
        _ = (s.unpolled false ++ (s.openings setting false).flatMap Opening.tables)
              ++ (opened (setting.recordAll events) false next).flatMap Opening.tables := by
            rw [hround.balance]
        _ = s.unpolled false ++ ((s.openings setting false).flatMap Opening.tables
              ++ (opened (setting.recordAll events) false next).flatMap Opening.tables) :=
            List.append_assoc _ _ _

/-- A poll that finds the token cancelled polls no table for the first time and opens nothing. -/
theorem polledFirst_cancelled (setting : Setting) {s : Stream} (h : s.Orderly) :
    polledFirst setting true s = [] ∧ opened setting true s = [] ∧
      (poll setting true s).next.unpolled false = [] := by
  fun_induction poll setting true s with
  | case1 setting s answer next events hs =>
      obtain ⟨hopened, hnext, -⟩ := unpolled_step_cancelled setting h.sheltered
      rw [hs] at hnext
      rw [polledFirst_of_step_some hs, opened_of_step_some hs]
      exact ⟨h.sheltered, hopened, hnext⟩
  | case2 setting s next events hs rest ih =>
      obtain ⟨hopened, -, -⟩ := unpolled_step_cancelled setting h.sheltered
      have hnext := orderly_step setting true h
      rw [hs] at hnext
      obtain ⟨hpolled, hrest, hlast⟩ := ih hnext
      rw [polledFirst_of_step_none hs, opened_of_step_none hs, h.sheltered, hopened, hpolled, hrest]
      exact ⟨rfl, rfl, hlast⟩

/-! ## Tables of joins -/

/-- A stream between two polls. -/
structure AtRest (s : Stream) : Prop extends Orderly s where
  own : ∀ t ∈ s.unpolled false, t.perRow = false

/-- After a poll no table is left that has not been polled. -/
theorem unpolled_poll (setting : Setting) (token : Bool) {s : Stream} (h : s.Orderly) :
    (poll setting token s).next.unpolled false = [] := by
  cases token with
  | true => exact (polledFirst_cancelled setting h).2.2
  | false => exact (polledFirst_live setting h).2

theorem atRest_poll (setting : Setting) (token : Bool) {s : Stream} (h : s.Orderly) :
    (poll setting token s).next.AtRest := by
  have hnext : (poll setting token s).next.Orderly :=
    poll_keeps (fun g t _ hs => orderly_step g t hs) setting token s h
  refine ⟨hnext, ?_⟩
  rw [unpolled_poll setting token h]
  intro t ht
  cases ht

end Stream

/-- The table that a query is, if it is one. -/
def Query.table? : Query → Option SqlQuery
  | .sql q => some q
  | .counting _ input => table? input
  | .absorbing _ _ _ input => table? input
  | .declining _ input => table? input
  | _ => none

namespace Stream

/-- A new stream of a query holds the table that the query is. -/
theorem unpolled_stream (q : Query) (perRow : Bool) :
    q.stream.unpolled perRow = (q.table?.map (fun table => ⟨table, perRow⟩)).toList := by
  induction q with
  | script name items observesToken => cases observesToken <;> rfl
  | counting counter input ih => exact ih
  | absorbing name supported refusal input ih => exact ih
  | declining supported input ih => exact ih
  | _ => rfl

theorem atRest_stream (q : Query) : q.stream.AtRest := by
  refine ⟨orderly_stream q, ?_⟩
  intro t ht
  rw [unpolled_stream, Option.mem_toList, Option.map_eq_some_iff] at ht
  obtain ⟨table, -, rfl⟩ := ht
  rfl

/-- Of the streams that are opened, those for outer rows bring the tables for outer rows. -/
theorem perRow_tables (openings : List Opening) :
    ((openings.flatMap Opening.tables).filter (·.perRow)).map (·.table)
      = (openings.filter (·.perRow)).filterMap (·.query.table?) := by
  induction openings with
  | nil => rfl
  | cons o rest ih =>
      obtain ⟨q, perRow⟩ := o
      rw [List.flatMap_cons, List.filter_append, List.map_append, ih, Opening.tables,
        unpolled_stream]
      cases perRow with
      | false => cases q.table? <;> rfl
      | true =>
          rw [List.filter_cons_of_pos rfl, List.filterMap_cons]
          dsimp only
          cases q.table? <;> rfl

/-- **On the inner side of a join, a table is polled for the first time once for every outer row.**
-/
theorem perRow_polledFirst (setting : Setting) (token : Bool) {s : Stream} (h : s.AtRest) :
    ((polledFirst setting token s).filter (·.perRow)).map (·.table)
      = ((opened setting token s).filter (·.perRow)).filterMap (·.query.table?) := by
  cases token with
  | true =>
      obtain ⟨hpolled, hopened, -⟩ := polledFirst_cancelled setting h.toOrderly
      rw [hpolled, hopened]
      rfl
  | false =>
      have hown : (s.unpolled false).filter (·.perRow) = [] := by
        rw [List.filter_eq_nil_iff]
        intro t ht
        rw [h.own t ht]
        exact Bool.false_ne_true
      have hlive := (polledFirst_live setting h.toOrderly).1
      calc ((polledFirst setting false s).filter (·.perRow)).map (·.table)
          = ((s.unpolled false).filter (·.perRow)
              ++ ((opened setting false s).flatMap Opening.tables).filter (·.perRow)).map
                (·.table) := by
            rw [hlive, List.filter_append]
        _ = (((opened setting false s).flatMap Opening.tables).filter (·.perRow)).map
              (·.table) := by
            rw [hown, List.nil_append]
        _ = ((opened setting false s).filter (·.perRow)).filterMap (·.query.table?) :=
            perRow_tables _

end Stream

end RowQuery
