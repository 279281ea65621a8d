import RowQuery.Proofs.Cancellation
import RowQuery.Proofs.CommandLog

set_option autoImplicit false

/-! # Independence of enumerations

The streams of a session have much in common: connections, tokens, subqueries, and the cells that
hold compiled expressions. None of it can be noticed in what a stream answers. A stream is *lost*
when it is dropped or when another one takes its name; up to then only its own polls change it
(`Session.get?_perform`), and of all that the others do, its polls can only find expressions
compiled, which does not show. So its answers are those of a session in which it is the only stream
(`enumerations_independent`).

A cell is empty, or holds what its expression compiles to for its number of arguments. This is a
field of its type, so there is no state in which it could be otherwise. What is said here is that a
cell that has been filled stays filled whatever is done in the session (`Session.Holds`), and that
an expression that does not compile never fills its cell.
-/

namespace RowQuery

/-! ## Cells -/

namespace LazyExpr

/-- A cell that has been filled gives what it holds, and stays as it is. -/
theorem get_of_compiled {cell : LazyExpr} {c : CompiledExpr} (h : cell.compiled = some c) :
    cell.get = (.ok c, cell) := by
  unfold get
  split
  · rename_i c' hc'
    rw [h, Option.some.injEq] at hc'
    rw [hc']
  · rename_i hnone
    rw [h] at hnone
    cases hnone

/-- A cell keeps its expression and its number of arguments. -/
theorem get_snd (cell : LazyExpr) :
    cell.get.2.expr = cell.expr ∧ cell.get.2.arity = cell.arity := by
  unfold get
  split
  · exact ⟨rfl, rfl⟩
  · unfold fill
    split <;> exact ⟨rfl, rfl⟩

/-- After a `get` that succeeds, the cell holds what it gave. -/
theorem compiled_of_get_ok {cell : LazyExpr} {c : CompiledExpr} (h : cell.get.1 = .ok c) :
    cell.get.2.compiled = some c := by
  cases hcell : cell.compiled with
  | some c' =>
      rw [get_of_compiled hcell] at h ⊢
      rw [Except.ok.inj h] at hcell
      exact hcell
  | none =>
      have hcompile : CompiledExpr.compile cell.expr cell.arity = .ok c := by
        rw [← get_fst, h]
      have hfill : cell.get.2 = cell.fill := by
        unfold get
        rw [hcell]
      rw [hfill, fill]
      split
      · rename_i c' hc'
        rw [hcompile] at hc'
        rw [Except.ok.inj hc']
      · rename_i err herr
        rw [hcompile] at herr
        cases herr

/-- A `get` that fails finds the cell empty and leaves it so. -/
theorem get_of_error {cell : LazyExpr} {err : EvalError} (h : cell.get.1 = .error err) :
    cell.compiled = none ∧ cell.get.2 = cell := by
  have hcompile : CompiledExpr.compile cell.expr cell.arity = .error err := by
    rw [← get_fst, h]
  have hcell : cell.compiled = none := by
    cases hcell : cell.compiled with
    | none => rfl
    | some c =>
        rw [cell.compiled_eq c hcell] at hcompile
        cases hcompile
  refine ⟨hcell, ?_⟩
  have hfill : cell.get.2 = cell.fill := by
    unfold get
    rw [hcell]
  rw [hfill, fill]
  split
  · rename_i c hc
    rw [hcompile] at hc
    cases hc
  · rfl

end LazyExpr

namespace CompileCache

/-- A cell that is kept stands for its own expression; for the others the cache is as it was. -/
theorem cell_store (cache : CompileCache) (cell : LazyExpr) (e : Expr) (arity : Nat) :
    (cache.store cell).cell e arity
      = if cell.isCompiled ∧ cell.expr = e ∧ cell.arity = arity then cell
        else cache.cell e arity := by
  by_cases hcompiled : cell.isCompiled = true
  · rw [store, if_pos hcompiled]
    by_cases hcell : cell.expr = e ∧ cell.arity = arity
    · rw [if_pos ⟨hcompiled, hcell⟩, CompileCache.cell,
        List.find?_cons_of_pos (by simpa using hcell)]
      rfl
    · rw [if_neg (fun h => hcell h.2), CompileCache.cell,
        List.find?_cons_of_neg (by simpa using hcell)]
      rfl
  · rw [store, if_neg hcompiled, if_neg (fun h => hcompiled h.1)]

/-- A cell that has been filled stays filled, with the same code. -/
theorem compiled_store {cache : CompileCache} {e : Expr} {arity : Nat} {c : CompiledExpr}
    (h : (cache.cell e arity).compiled = some c) (cell : LazyExpr) :
    ((cache.store cell).cell e arity).compiled = some c := by
  rw [cell_store]
  split
  · rename_i hcell
    obtain ⟨hcompiled, rfl, rfl⟩ := hcell
    obtain ⟨c', hc'⟩ := Option.isSome_iff_exists.mp hcompiled
    -- both cells hold what the expression compiles to
    have hold := (cache.cell cell.expr cell.arity).compiled_eq c h
    have hnew := cell.compiled_eq c' hc'
    rw [(cell_spec cache cell.expr cell.arity).1, (cell_spec cache cell.expr cell.arity).2,
      hnew] at hold
    rw [hc', Except.ok.inj hold]
  · exact h

end CompileCache

namespace Setting

theorem compiled_recordAll {g : Setting} {e : Expr} {arity : Nat} {c : CompiledExpr}
    (h : (g.cache.cell e arity).compiled = some c) (events : List Event) :
    ((g.recordAll events).cache.cell e arity).compiled = some c := by
  induction events generalizing g with
  | nil => exact h
  | cons event rest ih =>
      apply ih
      cases event with
      | compiled cell => exact CompileCache.compiled_store h cell
      | _ => exact h

/-- When an expression has been compiled in some surroundings, its cell there is the one that a
`get` leaves behind. -/
theorem cell_recordAll_compile (g : Setting) (e : Expr) (arity : Nat) :
    (g.recordAll (g.compile e arity).2).cache.cell e arity = (g.cache.cell e arity).get.2 := by
  obtain ⟨hexpr, harity⟩ := g.cache.cell_spec e arity
  cases hcell : (g.cache.cell e arity).compiled with
  | some c =>
      have hevents : (g.compile e arity).2 = [] := by
        simp [compile, LazyExpr.isCompiled, hcell]
      rw [hevents, LazyExpr.get_of_compiled hcell]
      rfl
  | none =>
      have hevents : (g.compile e arity).2 = [.compiled (g.cache.cell e arity).get.2] := by
        simp [compile, LazyExpr.isCompiled, hcell]
      rw [hevents]
      show (g.cache.store _).cell e arity = _
      rw [CompileCache.cell_store]
      cases hget : (g.cache.cell e arity).get.1 with
      | error err =>
          -- the cell is still empty
          obtain ⟨-, hsame⟩ := LazyExpr.get_of_error hget
          rw [hsame, if_neg (by simp [LazyExpr.isCompiled, hcell])]
      | ok c =>
          have hfilled := LazyExpr.compiled_of_get_ok hget
          obtain ⟨hexpr', harity'⟩ := LazyExpr.get_snd (g.cache.cell e arity)
          rw [if_pos ⟨by rw [LazyExpr.isCompiled, hfilled]; rfl, hexpr'.trans hexpr,
            harity'.trans harity⟩]

end Setting

/-! ## Deeds -/

namespace Deed

/-- Whether a deed leaves connections as they are. -/
def isSteady : Deed → Bool
  | .setBehavior .. => false
  | _ => true

/-- Whether a deed polls the stream of a name. -/
def polls (name : String) : Deed → Bool
  | .next n => n = name
  | _ => false

/-- Whether a deed cancels a token. -/
def cancels (token : String) : Deed → Bool
  | .cancel t => t = token
  | _ => false

end Deed

namespace Session

/-- The cell for an expression holds its code. -/
def Holds (s : Session) (e : Expr) (arity : Nat) (c : CompiledExpr) : Prop :=
  (s.cache.cell e arity).compiled = some c

/-! What the deeds come to, with the session that each of them leaves. -/

theorem perform_define (s : Session) (name : String) (plan : Plan) :
    s.perform (.define name plan) = s ∨
      ∃ q between, s.build plan = some (q, between) ∧
        s.perform (.define name plan) = { between with queries := between.queries.set name q } := by
  cases hbuild : s.build plan with
  | none =>
      left
      simp [perform, Session.define, hbuild]
  | some result =>
      obtain ⟨q, between⟩ := result
      right
      exact ⟨q, between, rfl, by simp [perform, Session.define, hbuild]⟩

/-- A new stream of a query is held under a name, and an older one of that name is dropped. -/
def holdNew (s : Session) (name token : String) (q : Query) : Session :=
  let dropped := ((s.record q.openEvents).dropStream name).2
  { dropped with streams := dropped.streams.set name ⟨token, q.stream⟩ }

theorem openStream_of_build {s between : Session} {plan : Plan} {q : Query}
    (h : s.build plan = some (q, between)) (name token : String) :
    s.openStream name plan token = some (q, between.holdNew name token q) := by
  simp [Session.openStream, h, holdNew]

theorem perform_openStream (s : Session) (name : String) (plan : Plan) (token : String) :
    (s.openStream name plan token = none ∧ s.perform (.openStream name plan token) = s) ∨
      ∃ q between, s.build plan = some (q, between) ∧
        s.openStream name plan token = some (q, between.holdNew name token q) ∧
        s.perform (.openStream name plan token) = between.holdNew name token q := by
  cases hbuild : s.build plan with
  | none =>
      left
      have hopen : s.openStream name plan token = none := by
        simp [Session.openStream, hbuild]
      exact ⟨hopen, by simp [perform, hopen]⟩
  | some result =>
      obtain ⟨q, between⟩ := result
      right
      have hopen := openStream_of_build hbuild name token
      exact ⟨q, between, rfl, hopen, by simp [perform, hopen]⟩

theorem next_of_get? {s : Session} {name : String} {held : OpenStream}
    (h : s.streams.get? name = some held) :
    s.next name = some ((Stream.poll s.setting (s.isCancelled held.token) held.stream).answer,
      { s with
        streams := s.streams.set name
          ⟨held.token, (Stream.poll s.setting (s.isCancelled held.token) held.stream).next⟩ }.record
        (Stream.poll s.setting (s.isCancelled held.token) held.stream).events) := by
  simp [Session.next, h]

theorem next_of_get?_eq_none {s : Session} {name : String} (h : s.streams.get? name = none) :
    s.next name = none := by
  simp [Session.next, h]

/-- Connections and tokens are as they were, and cells that have been filled are so still. -/
structure Undisturbed (s s' : Session) : Prop where
  connections : s'.connections = s.connections
  cancelled : s'.cancelled = s.cancelled
  holds : ∀ {e : Expr} {arity : Nat} {c : CompiledExpr}, s.Holds e arity c → s'.Holds e arity c

namespace Undisturbed

variable {s s' s'' : Session}

theorem refl (s : Session) : Undisturbed s s := ⟨rfl, rfl, id⟩

theorem trans (h : Undisturbed s s') (h' : Undisturbed s' s'') : Undisturbed s s'' :=
  ⟨h'.connections.trans h.connections, h'.cancelled.trans h.cancelled, h'.holds ∘ h.holds⟩

theorem record (s : Session) (events : List Event) : Undisturbed s (s.record events) :=
  ⟨rfl, rfl, fun h => Setting.compiled_recordAll (g := s.setting) h events⟩

theorem acquaint (s : Session) (q : Query) : Undisturbed s (s.acquaint q) := by
  obtain ⟨polled, absorbers, hnames⟩ := s.acquaint_eq q
  rw [hnames]
  exact ⟨rfl, rfl, id⟩

/-- To compose queries disturbs nothing. -/
theorem build {plan : Plan} {q : Query} (h : s.build plan = some (q, s')) : Undisturbed s s' := by
  refine build_keeps (P := Undisturbed s) ?_ ?_ ?_ h (refl s)
  · intro between q' hbetween
    exact hbetween.trans (acquaint between q')
  · intro between counters n hbetween
    exact ⟨hbetween.connections, hbetween.cancelled, hbetween.holds⟩
  · intro between calls hbetween
    exact hbetween.trans (record between _)

theorem dropStream (s : Session) (name : String) : Undisturbed s (s.dropStream name).2 := by
  unfold Session.dropStream
  split
  · rename_i held _
    have hrecord := record { s with streams := s.streams.erase name } held.stream.release
    exact ⟨hrecord.connections, hrecord.cancelled, hrecord.holds⟩
  · exact refl s

theorem holdNew (s : Session) (name token : String) (q : Query) :
    Undisturbed s (s.holdNew name token q) := by
  have hdropped := (record s q.openEvents).trans (dropStream _ name)
  exact ⟨hdropped.connections, hdropped.cancelled, hdropped.holds⟩

end Undisturbed

/-- All deeds but two leave connections and tokens as they are. -/
theorem undisturbed_perform (s : Session) {d : Deed} (hsteady : d.isSteady = true)
    (hcancel : ∀ token, d.cancels token = false) : Undisturbed s (s.perform d) := by
  cases d with
  | define name plan =>
      rcases perform_define s name plan with h | ⟨q, between, hbuild, h⟩
      · rw [h]
        exact .refl s
      · have hbetween := Undisturbed.build hbuild
        rw [h]
        exact ⟨hbetween.connections, hbetween.cancelled, hbetween.holds⟩
  | openStream name plan token =>
      rcases perform_openStream s name plan token with ⟨-, h⟩ | ⟨q, between, hbuild, -, h⟩
      · rw [h]
        exact .refl s
      · rw [h]
        exact (Undisturbed.build hbuild).trans (.holdNew between name token q)
  | next name =>
      rw [perform]
      cases hname : s.streams.get? name with
      | none =>
          rw [next_of_get?_eq_none hname]
          exact .refl s
      | some held =>
          rw [next_of_get? hname]
          exact ⟨rfl, rfl, (Undisturbed.record s _).holds⟩
  | dropStream name => exact .dropStream s name
  | cancel token => simpa [Deed.cancels] using hcancel token
  | setBehavior connection b => cases hsteady

/-- Changing how a connection answers leaves streams, tokens and cells as they are. -/
theorem perform_setBehavior (s : Session) (connection : String) (b : MemoryBehavior) :
    (s.perform (.setBehavior connection b)).streams = s.streams ∧
      (s.perform (.setBehavior connection b)).cancelled = s.cancelled ∧
      (s.perform (.setBehavior connection b)).cache = s.cache := by
  cases hget : s.connections.get? connection with
  | none => simp [perform, Session.setBehavior, hget]
  | some attached => simp [perform, Session.setBehavior, hget]

/-- **A cell that has been filled stays filled, whatever is done.** -/
theorem Holds.perform {s : Session} {e : Expr} {arity : Nat} {c : CompiledExpr}
    (h : s.Holds e arity c) (d : Deed) : (s.perform d).Holds e arity c := by
  cases d with
  | cancel token => exact h
  | setBehavior connection b =>
      have hcache := (perform_setBehavior s connection b).2.2
      rw [Holds, hcache]
      exact h
  | define name plan => exact (undisturbed_perform s rfl fun _ => rfl).holds h
  | openStream name plan token => exact (undisturbed_perform s rfl fun _ => rfl).holds h
  | next name => exact (undisturbed_perform s rfl fun _ => rfl).holds h
  | dropStream name => exact (undisturbed_perform s rfl fun _ => rfl).holds h

theorem Holds.run {s : Session} {e : Expr} {arity : Nat} {c : CompiledExpr}
    (h : s.Holds e arity c) (deeds : List Deed) : (s.run deeds).Holds e arity c := by
  induction deeds generalizing s with
  | nil => exact h
  | cons d rest ih => exact ih (h.perform d)

/-- A token has been cancelled if it was before or is now. -/
theorem isCancelled_perform (s : Session) (d : Deed) (token : String) :
    (s.perform d).isCancelled token = (s.isCancelled token || d.cancels token) := by
  have hsame : ∀ {s' : Session}, s'.cancelled = s.cancelled →
      s'.isCancelled token = (s.isCancelled token || false) := by
    intro s' h
    rw [isCancelled, h, isCancelled, Bool.or_false]
  cases d with
  | cancel t =>
      show (t :: s.cancelled).contains token = _
      by_cases ht : t = token
      · subst ht
        simp [isCancelled, Deed.cancels]
      · simp [isCancelled, Deed.cancels, ht, Ne.symm ht]
  | setBehavior connection b => exact hsame (perform_setBehavior s connection b).2.1
  | define name plan => exact hsame (undisturbed_perform s rfl fun _ => rfl).cancelled
  | openStream name plan t => exact hsame (undisturbed_perform s rfl fun _ => rfl).cancelled
  | next name => exact hsame (undisturbed_perform s rfl fun _ => rfl).cancelled
  | dropStream name => exact hsame (undisturbed_perform s rfl fun _ => rfl).cancelled

theorem behavior_of_connections {s s' : Session} (h : s'.connections = s.connections) :
    s'.setting.behavior = s.setting.behavior := by
  funext name
  show ((s'.connections.get? name).map Attached.behavior).getD _ = _
  rw [h]
  rfl

/-- In a steady deed connections go on answering as they do. -/
theorem behavior_perform (s : Session) {d : Deed} (h : d.isSteady = true) :
    (s.perform d).setting.behavior = s.setting.behavior := by
  apply behavior_of_connections
  cases d with
  | cancel token => rfl
  | _ => exact (undisturbed_perform s h fun _ => rfl).connections

/-! ## The life of a stream -/

/-- Whether the stream of a name is lost in a deed: it is dropped, or another one takes its name. -/
def loses (s : Session) (name : String) : Deed → Bool
  | .dropStream n => n = name
  | .openStream n plan token => n = name && (s.openStream n plan token).isSome
  | _ => false

/-- The answer that a deed brings to whoever polls the stream of a name. -/
def answerTo? (s : Session) (name : String) : Deed → Option Answer
  | .next n => if n = name then (s.next n).map (·.1) else none
  | _ => none

/-- A poll of a stream, in a session. -/
def pollOf (s : Session) (held : OpenStream) : Stream.Polled :=
  Stream.poll s.setting (s.isCancelled held.token) held.stream

/-- What is held under a name after a deed in which it is not lost. -/
def heldAfter (s : Session) (name : String) (held : OpenStream) (d : Deed) : OpenStream :=
  if d.polls name then ⟨held.token, (s.pollOf held).next⟩ else held

/-- **Only its own polls change a stream**, as long as it is not lost. -/
theorem get?_perform {s : Session} {name : String} {held : OpenStream}
    (h : s.streams.get? name = some held) {d : Deed} (hd : s.loses name d = false) :
    (s.perform d).streams.get? name = some (s.heldAfter name held d) := by
  cases d with
  | define n plan =>
      rcases perform_define s n plan with hperform | ⟨q, between, hbuild, hperform⟩
      · rw [hperform]
        exact h
      · have hstreams := (composed_build hbuild).streams
        rw [hperform]
        show between.streams.get? name = _
        rw [hstreams]
        exact h
  | openStream n plan token =>
      rcases perform_openStream s n plan token with
        ⟨-, hperform⟩ | ⟨q, between, hbuild, hopen, hperform⟩
      · rw [hperform]
        exact h
      · -- the new stream has another name
        have hname : n ≠ name := by
          intro hn
          simp [loses, hn] at hd
          rw [hn] at hopen
          rw [hopen] at hd
          cases hd
        have hstreams := (composed_build hbuild).streams
        have hdropped : ((between.record q.openEvents).dropStream n).2.streams.get? name
            = between.streams.get? name := by
          unfold Session.dropStream
          split
          · exact Named.get?_erase_of_ne hname
          · rfl
        rw [hperform]
        show (Named.set _ n _).get? name = _
        rw [Named.get?_set_of_ne hname, hdropped, hstreams]
        exact h
  | next n =>
      by_cases hname : n = name
      · subst hname
        rw [perform, next_of_get? h]
        have hpolls : (Deed.next n).polls n = true := by simp [Deed.polls]
        rw [heldAfter, if_pos hpolls]
        exact Named.get?_set_self _ _ _
      · have hpolls : ¬ (Deed.next n).polls name = true := by simpa [Deed.polls] using hname
        rw [heldAfter, if_neg hpolls, perform]
        cases hn : s.streams.get? n with
        | none =>
            rw [next_of_get?_eq_none hn]
            exact h
        | some other =>
            rw [next_of_get? hn]
            exact (Named.get?_set_of_ne hname _).trans h
  | dropStream n =>
      have hname : n ≠ name := by simpa [loses] using hd
      show (s.dropStream n).2.streams.get? name = _
      unfold Session.dropStream
      split
      · exact (Named.get?_erase_of_ne hname).trans h
      · exact h
  | cancel token => exact h
  | setBehavior connection b =>
      have hstreams := (perform_setBehavior s connection b).1
      rw [hstreams]
      exact h

/-- What a stream answers to whoever polls it. -/
theorem answerTo?_of_get? {s : Session} {name : String} {held : OpenStream}
    (h : s.streams.get? name = some held) (d : Deed) :
    s.answerTo? name d = if d.polls name then some (s.pollOf held).answer else none := by
  cases d with
  | next n =>
      by_cases hname : n = name
      · subst hname
        simp [answerTo?, Deed.polls, next_of_get? h, pollOf]
      · simp [answerTo?, Deed.polls, hname]
  | _ => rfl

/-- A session in the course of some deeds, and what is done in it next. -/
structure Moment where
  session : Session
  deed : Deed

/-- The moments of some deeds. -/
def moments (s : Session) : List Deed → List Moment
  | [] => []
  | d :: rest => ⟨s, d⟩ :: moments (s.perform d) rest

/-- The moments until the stream of a name is lost. -/
def lifetime (s : Session) (name : String) (deeds : List Deed) : List Moment :=
  (s.moments deeds).takeWhile (fun m => !m.session.loses name m.deed)

/-- What the stream of a name answers, as long as it is not lost. -/
def heard (s : Session) (name : String) (deeds : List Deed) : List Answer :=
  (s.lifetime name deeds).filterMap (fun m => m.session.answerTo? name m.deed)

/-- The sessions in which the stream is polled, as long as it is not lost. -/
def polledIn (s : Session) (name : String) (deeds : List Deed) : List Session :=
  (s.lifetime name deeds).filterMap (fun m => if m.deed.polls name then some m.session else none)

/-- What a stream under a token finds in a session. -/
def occasion (s : Session) (token : String) : Occasion := ⟨s.setting, s.isCancelled token⟩

theorem lifetime_cons {s : Session} {name : String} {d : Deed} (h : s.loses name d = false)
    (rest : List Deed) :
    s.lifetime name (d :: rest) = ⟨s, d⟩ :: (s.perform d).lifetime name rest := by
  rw [lifetime, moments, List.takeWhile_cons_of_pos (by simpa using h)]
  rfl

theorem lifetime_cons_of_loses {s : Session} {name : String} {d : Deed}
    (h : s.loses name d = true) (rest : List Deed) : s.lifetime name (d :: rest) = [] := by
  rw [lifetime, moments, List.takeWhile_cons_of_neg (by simpa using h)]

/-- The polls of a stream, deed by deed. -/
theorem polledIn_cons (s : Session) (name : String) (d : Deed) (rest : List Deed) :
    s.polledIn name (d :: rest)
      = if s.loses name d then []
        else if d.polls name then s :: (s.perform d).polledIn name rest
        else (s.perform d).polledIn name rest := by
  cases hd : s.loses name d with
  | true =>
      rw [polledIn, lifetime_cons_of_loses hd]
      rfl
  | false =>
      rw [polledIn, lifetime_cons hd, List.filterMap_cons]
      by_cases hpolls : d.polls name = true
      · simp only [hpolls, if_true]
        rfl
      · simp only [hpolls]
        rfl

/-- A stream answers what its own polls come to. -/
theorem heard_eq {s : Session} {name : String} {held : OpenStream}
    (h : s.streams.get? name = some held) (deeds : List Deed) :
    s.heard name deeds
      = (held.stream.pollAll ((s.polledIn name deeds).map (·.occasion held.token))).answers := by
  induction deeds generalizing s held with
  | nil => rfl
  | cons d rest ih =>
      cases hd : s.loses name d with
      | true =>
          rw [heard, lifetime_cons_of_loses hd, polledIn_cons, hd]
          rfl
      | false =>
          have hrest := ih (get?_perform h hd)
          have hanswer := answerTo?_of_get? h d
          rw [heard, lifetime_cons hd, List.filterMap_cons, polledIn_cons, hd]
          by_cases hpolls : d.polls name = true
          · rw [heldAfter, if_pos hpolls] at hrest
            rw [if_pos hpolls] at hanswer
            simp only [hanswer, hpolls, if_true]
            exact congrArg (List.cons _) hrest
          · rw [heldAfter, if_neg hpolls] at hrest
            rw [if_neg hpolls] at hanswer
            simp only [hanswer, hpolls]
            exact hrest

/-! ## The token of a stream -/

theorem isCancelled_of_mem_polledIn {s x : Session} {token : String}
    (h : s.isCancelled token = true) {name : String} {deeds : List Deed}
    (hx : x ∈ s.polledIn name deeds) : x.isCancelled token = true := by
  induction deeds generalizing s with
  | nil => cases hx
  | cons d rest ih =>
      have hlater : (s.perform d).isCancelled token = true := by
        rw [isCancelled_perform, h, Bool.true_or]
      rw [polledIn_cons] at hx
      split at hx
      · cases hx
      · split at hx
        · rcases List.mem_cons.mp hx with rfl | hx
          · exact h
          · exact ih hlater hx
        · exact ih hlater hx

/-- The polls before the cancellation come first. -/
theorem polledIn_split (s : Session) (name token : String) (deeds : List Deed) :
    ∃ early late, s.polledIn name deeds = early ++ late ∧
      (∀ x ∈ early, x.isCancelled token = false) ∧ ∀ x ∈ late, x.isCancelled token = true := by
  induction deeds generalizing s with
  | nil => exact ⟨[], [], rfl, nofun, nofun⟩
  | cons d rest ih =>
      cases hs : s.isCancelled token with
      | true => exact ⟨[], _, rfl, nofun, fun x hx => isCancelled_of_mem_polledIn hs hx⟩
      | false =>
          obtain ⟨early, late, hpolled, hearly, hlate⟩ := ih (s.perform d)
          rw [polledIn_cons]
          split
          · exact ⟨[], [], rfl, nofun, nofun⟩
          · split
            · refine ⟨s :: early, late, by rw [hpolled]; rfl, ?_, hlate⟩
              intro x hx
              rcases List.mem_cons.mp hx with rfl | hx
              · exact hs
              · exact hearly x hx
            · exact ⟨early, late, hpolled, hearly, hlate⟩

/-- In steady deeds all polls find connections that answer the same. -/
theorem behavior_of_mem_polledIn {s x : Session} {name : String} {deeds : List Deed}
    (hsteady : ∀ d ∈ deeds, d.isSteady = true) (hx : x ∈ s.polledIn name deeds) :
    x.setting.behavior = s.setting.behavior := by
  induction deeds generalizing s with
  | nil => cases hx
  | cons d rest ih =>
      have hlater : x ∈ (s.perform d).polledIn name rest →
          x.setting.behavior = s.setting.behavior := by
        intro hx
        rw [ih (fun d' hd' => hsteady d' (.tail _ hd')) hx]
        exact behavior_perform s (hsteady d List.mem_cons_self)
      rw [polledIn_cons] at hx
      split at hx
      · cases hx
      · split at hx
        · rcases List.mem_cons.mp hx with rfl | hx
          · rfl
          · exact hlater hx
        · exact hlater hx

/-- How many polls of a stream come before the cancellation of its token. -/
def earlyPolls (s : Session) (name token : String) (deeds : List Deed) : Nat :=
  (s.polledIn name deeds).countP (fun x => !x.isCancelled token)

/-- What the polls of a stream see: connections that answer the same, and a token that has been
cancelled after so many of them. -/
theorem seen_polledIn {s : Session} (name token : String) {deeds : List Deed}
    (hsteady : ∀ d ∈ deeds, d.isSteady = true) :
    ((s.polledIn name deeds).map (·.occasion token)).map Occasion.seen
      = List.replicate (s.earlyPolls name token deeds) (s.setting.behavior, false)
        ++ List.replicate ((s.polledIn name deeds).length - s.earlyPolls name token deeds)
            (s.setting.behavior, true) := by
  obtain ⟨early, late, hpolled, hearly, hlate⟩ := s.polledIn_split name token deeds
  have hbehavior : ∀ x ∈ early ++ late, x.setting.behavior = s.setting.behavior := by
    intro x hx
    rw [← hpolled] at hx
    exact behavior_of_mem_polledIn hsteady hx
  have hcount : s.earlyPolls name token deeds = early.length := by
    have hnone : late.countP (fun x => !x.isCancelled token) = 0 := by
      rw [List.countP_eq_zero]
      intro x hx
      simp [hlate x hx]
    have hall : early.countP (fun x => !x.isCancelled token) = early.length := by
      rw [List.countP_eq_length]
      intro x hx
      simp [hearly x hx]
    rw [earlyPolls, hpolled, List.countP_append, hall, hnone, Nat.add_zero]
  have hlength : (early ++ late).length - early.length = late.length := by
    rw [List.length_append]
    omega
  rw [hcount, hpolled, hlength, List.map_map, List.map_append]
  congr 1
  · rw [List.map_eq_replicate_iff]
    intro x hx
    exact Prod.ext (hbehavior x (List.mem_append_left late hx)) (hearly x hx)
  · rw [List.map_eq_replicate_iff]
    intro x hx
    exact Prod.ext (hbehavior x (List.mem_append_right early hx)) (hlate x hx)

/-! ## A stream on its own -/

/-- The answers to a number of polls when a stream of the query is all that there ever is in a
session, and its token is cancelled after so many of them. -/
def alone (connections : Named Attached) (q : Query) (polls early : Nat) : List Answer :=
  ((Session.new connections).perform (.openStream "stream" (.source q) "token")).heard "stream"
    (List.replicate early (.next "stream") ++ .cancel "token"
      :: List.replicate (polls - early) (.next "stream"))

/-- Deeds that only poll a stream. -/
theorem polledIn_next (s : Session) (name : String) (rest : List Deed) :
    s.polledIn name (.next name :: rest) = s :: (s.perform (.next name)).polledIn name rest := by
  have hpolls : (Deed.next name).polls name = true := by simp [Deed.polls]
  rw [polledIn_cons, if_neg (by simp [loses]), if_pos hpolls]

theorem length_polledIn_replicate (s : Session) (name : String) (n : Nat) :
    (s.polledIn name (List.replicate n (.next name))).length = n := by
  induction n generalizing s with
  | zero => rfl
  | succ n ih => rw [List.replicate_succ, polledIn_next, List.length_cons, ih]

/-- In a session that does nothing but poll a stream and cancel its token in between, these are the
polls. -/
theorem polledIn_alone {s : Session} {token : String} (h : s.isCancelled token = false)
    (name : String) (early late : Nat) :
    (s.polledIn name (List.replicate early (.next name) ++ .cancel token
        :: List.replicate late (.next name))).length = early + late ∧
      s.earlyPolls name token (List.replicate early (.next name) ++ .cancel token
        :: List.replicate late (.next name)) = early := by
  induction early generalizing s with
  | zero =>
      have hcancel : s.polledIn name (.cancel token :: List.replicate late (.next name))
          = (s.perform (.cancel token)).polledIn name (List.replicate late (.next name)) := by
        rw [polledIn_cons]
        rfl
      have hcancelled : (s.perform (.cancel token)).isCancelled token = true := by
        simp [isCancelled_perform, Deed.cancels]
      rw [List.replicate_zero, List.nil_append, earlyPolls, hcancel]
      constructor
      · rw [length_polledIn_replicate, Nat.zero_add]
      · rw [List.countP_eq_zero]
        intro x hx
        simp [isCancelled_of_mem_polledIn hcancelled hx]
  | succ early ih =>
      have hlater : (s.perform (.next name)).isCancelled token = false := by
        rw [isCancelled_perform, h]
        rfl
      obtain ⟨hlength, hearly⟩ := ih hlater
      rw [earlyPolls] at hearly
      rw [List.replicate_succ, List.cons_append, earlyPolls, polledIn_next, List.length_cons,
        List.countP_cons, hlength, hearly]
      exact ⟨by omega, by simp [h]⟩

/-- When a stream has been opened, it is held under its name. -/
theorem get?_openStream {s s' : Session} {name token : String} {plan : Plan} {q : Query}
    (h : s.openStream name plan token = some (q, s')) :
    s'.streams.get? name = some ⟨token, q.stream⟩ ∧ Undisturbed s s' := by
  rcases perform_openStream s name plan token with ⟨hnone, -⟩ | ⟨q', between, hbuild, hopen, -⟩
  · rw [hnone] at h
    cases h
  · rw [hopen] at h
    cases h
    exact ⟨Named.get?_set_self _ _ _, (Undisturbed.build hbuild).trans (.holdNew between _ _ _)⟩

theorem behavior_run (s : Session) {deeds : List Deed} (h : ∀ d ∈ deeds, d.isSteady = true) :
    (s.run deeds).setting.behavior = s.setting.behavior := by
  induction deeds generalizing s with
  | nil => rfl
  | cons d rest ih =>
      show ((s.perform d).run rest).setting.behavior = _
      rw [ih (s.perform d) (fun d' hd' => h d' (.tail _ hd')),
        behavior_perform s (h d List.mem_cons_self)]

/-- The answers of a stream on its own, as polls in one setting. -/
theorem alone_eq (connections : Named Attached) (q : Query) {polls early : Nat}
    {occasions : List Occasion}
    (hseen : occasions.map Occasion.seen
      = List.replicate early ((Session.new connections).setting.behavior, false)
        ++ List.replicate (polls - early) ((Session.new connections).setting.behavior, true)) :
    alone connections q polls early = (q.stream.pollAll occasions).answers := by
  have hopen : (Session.new connections).openStream "stream" (.source q) "token" = some (q, _) :=
    openStream_of_build rfl "stream" "token"
  obtain ⟨hget, hundisturbed⟩ := get?_openStream hopen
  have hsteady : ∀ d ∈ List.replicate early (Deed.next "stream") ++ .cancel "token"
      :: List.replicate (polls - early) (Deed.next "stream"), d.isSteady = true := by
    intro d hd
    rcases List.mem_append.mp hd with hd | hd
    · rw [List.eq_of_mem_replicate hd]
      rfl
    · rcases List.mem_cons.mp hd with rfl | hd
      · rfl
      · rw [List.eq_of_mem_replicate hd]
        rfl
  have hcancelled : ∀ {s : Session}, s.cancelled = [] → s.isCancelled "token" = false := by
    intro s hs
    rw [isCancelled, hs]
    rfl
  obtain ⟨hlength, hearly⟩ :=
    polledIn_alone (hcancelled hundisturbed.cancelled) "stream" early (polls - early)
  rw [alone, perform, hopen, Option.map_some, Option.getD_some, heard_eq hget]
  -- the two streams are polled at different moments, but see the same in each poll
  apply (Stream.pollAll_alike _ q.stream).1
  rw [seen_polledIn "stream" "token" hsteady, hlength, hearly, hseen,
    behavior_of_connections hundisturbed.connections, Nat.add_sub_cancel_left]

end Session

/-- **Enumerations are independent of each other.** In a session whose connections do not change how
they answer, let a stream of `q` be opened at any time, and let anything be done afterwards: other
streams of any queries are opened, polled and dropped, and tokens are cancelled. What the stream
answers until it is lost is what a stream of `q` answers when it is the only one ever opened and is
polled as often, with its token cancelled after as many polls.

The cells for compiled expressions are shared by all streams, and compiling is a `get` of the cell.
Whatever is done, every `get` of a cell gives the same. One that succeeds leaves the compiled form
in the cell, where it stays, and every later one gives this form. An expression that does not
compile leaves its cell empty. -/
theorem enumerations_independent (connections : Named Attached) {before deeds : List Deed}
    (hsteady : ∀ d ∈ before ++ deeds, d.isSteady = true) {name token : String} {plan : Plan}
    {q : Query} {s : Session}
    (hopen : ((Session.new connections).run before).openStream name plan token = some (q, s)) :
    s.heard name deeds
        = Session.alone connections q (s.polledIn name deeds).length
            (s.earlyPolls name token deeds) ∧
      (∀ (g : Setting) (e : Expr) (arity : Nat),
        (g.compile e arity).1 = (g.cache.cell e arity).get.1 ∧
          (g.recordAll (g.compile e arity).2).cache.cell e arity
            = (g.cache.cell e arity).get.2) ∧
      ∀ (earlier later : List Deed) (e : Expr) (arity : Nat),
        let cell := ((Session.new connections).run earlier).cache.cell e arity
        let cell' := ((Session.new connections).run (earlier ++ later)).cache.cell e arity
        cell'.get.1 = cell.get.1 ∧
        (∀ c, cell.get.1 = .ok c →
          cell.get.2.compiled = some c ∧ cell.get.2.get = (.ok c, cell.get.2)) ∧
        (∀ c, cell.compiled = some c → cell'.compiled = some c) ∧
        ∀ err, cell.get.1 = .error err →
          cell.compiled = none ∧ cell.get.2 = cell ∧ cell'.compiled = none := by
  refine ⟨?_, fun g e arity => ⟨rfl, g.cell_recordAll_compile e arity⟩, ?_⟩
  · obtain ⟨hget, hundisturbed⟩ := Session.get?_openStream hopen
    have hbefore := Session.behavior_run (Session.new connections)
      (fun d hd => hsteady d (List.mem_append_left deeds hd))
    have hbehavior : s.setting.behavior = (Session.new connections).setting.behavior :=
      (Session.behavior_of_connections hundisturbed.connections).trans hbefore
    have hseen := Session.seen_polledIn (s := s) name token
      (fun d hd => hsteady d (List.mem_append_right before hd))
    rw [hbehavior] at hseen
    rw [Session.heard_eq hget]
    exact (Session.alone_eq connections q hseen).symm
  · intro earlier later e arity
    have hsame : ∀ deeds : List Deed,
        (((Session.new connections).run deeds).cache.cell e arity).get.1
          = CompiledExpr.compile e arity :=
      fun deeds => ((Session.new connections).run deeds).cache.get_eq e arity
    have hrun : (Session.new connections).run (earlier ++ later)
        = ((Session.new connections).run earlier).run later := List.foldl_append
    refine ⟨(hsame _).trans (hsame _).symm, ?_, ?_, ?_⟩
    · intro c hc
      have hfilled := LazyExpr.compiled_of_get_ok hc
      exact ⟨hfilled, LazyExpr.get_of_compiled hfilled⟩
    · intro c hc
      rw [hrun]
      exact Session.Holds.run (s := (Session.new connections).run earlier) hc later
    · intro err herr
      obtain ⟨hempty, hleft⟩ := LazyExpr.get_of_error herr
      refine ⟨hempty, hleft, ?_⟩
      rw [hsame] at herr
      exact (LazyExpr.get_of_error ((hsame (earlier ++ later)).trans herr)).1

/-- Two streams of one query are opened, under two tokens. -/
def Session.sharing : List Deed :=
  [.define "above one" (.filter (.source (.values [.int64 1, .int64 2, .int64 3, .int64 4]))
      (.binary .lt (.constant (.int64 1)) (.argument 0))),
    .openStream "first" (.defined "above one") "token", .next "first"]

/-- The streams are polled in turns, and one of them after the other is stopped. -/
def Session.turnsOfTwo : List Deed :=
  [.next "second", .next "first", .cancel "token", .next "second", .next "first",
    .dropStream "first", .cancel "other token", .next "second"]

/-- The second stream does not notice that the first one has compiled the predicate, has been polled
in between, and has been cancelled. -/
theorem enumerations_independent_sharing :
    ∃ s : Session,
      (∀ d ∈ Session.sharing ++ Session.turnsOfTwo, d.isSteady = true) ∧
      ((Session.new []).run Session.sharing).openStream "second" (.defined "above one")
          "other token"
        = some (.localFilter (.values [.int64 1, .int64 2, .int64 3, .int64 4])
            (.binary .lt (.constant (.int64 1)) (.argument 0)), s) ∧
      s.heard "second" Session.turnsOfTwo = [.row (.int64 2), .row (.int64 3), .finished] := by
  have hsteady : ∀ d ∈ Session.sharing ++ Session.turnsOfTwo, d.isSteady = true := by
    simp [Session.sharing, Session.turnsOfTwo, Deed.isSteady]
  have hopen : ((Session.new []).run Session.sharing).openStream "second" (.defined "above one")
      "other token" = some (_, _) := rfl
  refine ⟨_, hsteady, hopen, ?_⟩
  rw [(enumerations_independent [] hsteady hopen).1]
  decide +kernel

end RowQuery
