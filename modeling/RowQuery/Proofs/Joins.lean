import RowQuery.Proofs.Course

set_option autoImplicit false

/-! # What a join does with its inputs

In a round a join opens an input, asks one of them for a round, or drops what it no longer needs.
These are its *moves* (`Stream.moves`); put together, they are everything that happens in the round
(`Stream.exists_events_eq_moves`). The moves of any number of rounds, under any cancellations and
over any inputs, come in an order that `Phase.after` describes: the outer query is opened first, an
outer element is followed by an opening of the inner query, and while an inner stream is there, only
that one is asked. What can be counted follows from the order alone (`Phase.accounts`).

The rounds of a poll are rounds, and so are those that a join takes inside of other operators
(`Stream.JoinsByRounds.step`). -/

namespace RowQuery

/-! ## Moves -/

/-- What a join does with its inputs. -/
inductive Move where
  | opensOuter (q : Query)
  | opensInner (q : Query)
  /-- The outer stream is asked for a round, and this is what it comes to. -/
  | asksOuter (r : Round Stream)
  | asksInner (r : Round Stream)
  | dropsOuter (s : Stream)
  | dropsInner (s : Stream)

namespace Move

/-- What happens in a move. -/
def events : Move → List Event
  | .opensOuter q => q.openEvents
  | .opensInner q => q.openEvents
  | .asksOuter r => r.events
  | .asksInner r => r.events
  | .dropsOuter s => s.release
  | .dropsInner s => s.release

def isOpensOuter : Move → Bool
  | .opensOuter _ => true
  | _ => false

def isOpensInner : Move → Bool
  | .opensInner _ => true
  | _ => false

def isDropsInner : Move → Bool
  | .dropsInner _ => true
  | _ => false

/-- Whether the outer stream answers with an element. -/
def pullsRow : Move → Bool
  | .asksOuter r => match r.answer with
    | some (.row _) => true
    | _ => false
  | _ => false

end Move

namespace Stream

/-- Whether the stream is that of a join that has not closed. -/
def isJoin : Stream → Bool
  | .joinIdle .. => true
  | .joinOuter .. => true
  | .joinInner .. => true
  | _ => false

/-- What a join does after a round of its outer stream, by what it has become. -/
def movesAfterOuter (inner : Query) (outer : Stream) : Stream → List Move
  | .joinInner .. => [.opensInner inner]
  | .joinOuter .. => []
  | _ => [.dropsOuter outer]

/-- What a join does after a round of its inner stream. -/
def movesAfterInner (outer current : Stream) : Stream → List Move
  | .joinInner .. => []
  | .joinOuter .. => [.dropsInner current]
  | _ => [.dropsInner current, .dropsOuter outer]

/-- What a join does with its inputs in a round. -/
def moves (setting : Setting) (token : Bool) : Stream → List Move
  | .joinIdle outer _ condition combine =>
    if token then []
    else if (setting.compileBoth condition combine 2).1.isOk then [.opensOuter outer] else []
  | .joinOuter inner c d outer =>
    if token then [.dropsOuter outer]
    else
      let r := step setting token outer
      .asksOuter r :: movesAfterOuter inner r.next (joinOuterNext inner c d r).next
  | .joinInner inner c d outer row current =>
    if token then [.dropsOuter outer, .dropsInner current]
    else
      let r := step setting token current
      .asksInner r :: movesAfterInner outer r.next (joinInnerNext inner c d outer row r).next
  | _ => []

/-- What a join does with its inputs in a round for every occasion. -/
def movesAll : List Occasion → Stream → List Move
  | [], _ => []
  | o :: rest, s =>
    s.moves o.setting o.cancelled ++ movesAll rest (step o.setting o.cancelled s).next

/-- **Everything that happens in a round of a join is a move**, once its expressions have been
compiled. -/
theorem exists_events_eq_moves (setting : Setting) (token : Bool) {s : Stream}
    (h : s.isJoin = true) :
    ∃ compiled : List Event, (∀ e ∈ compiled, ∃ cell, e = .compiled cell) ∧
      (step setting token s).events
        = compiled ++ (s.moves setting token).flatMap Move.events := by
  have hnothing : ∀ e ∈ ([] : List Event), ∃ cell, e = .compiled cell := fun e he => by cases he
  cases s with
  | joinIdle outer inner condition combine =>
      cases token with
      | true => exact ⟨[], hnothing, rfl⟩
      | false =>
          refine ⟨(setting.compileBoth condition combine 2).2,
            fun _ => Setting.compiled_of_mem_compileBoth, ?_⟩
          rw [step, moves, if_neg Bool.false_ne_true, if_neg Bool.false_ne_true]
          rcases setting.compileBoth condition combine 2 with ⟨err | ⟨c, d⟩, events⟩
          · exact (List.append_nil _).symm
          · show events ++ outer.openEvents = events ++ (outer.openEvents ++ [])
            rw [List.append_nil]
  | joinOuter inner c d outer =>
      refine ⟨[], hnothing, ?_⟩
      cases token with
      | true => exact (List.append_nil _).symm
      | false =>
          rw [step, moves, if_neg Bool.false_ne_true, if_neg Bool.false_ne_true]
          rcases joinOuterNext_cases inner c d (step setting false outer)
            with ⟨a, -, hr⟩ | ⟨answer, -, hr⟩ | ⟨row, hr⟩ <;>
          simp [hr, close, movesAfterOuter, Move.events]
  | joinInner inner c d outer row current =>
      refine ⟨[], hnothing, ?_⟩
      cases token with
      | true => simp [step, moves, Move.events]
      | false =>
          rw [step, moves, if_neg Bool.false_ne_true, if_neg Bool.false_ne_true]
          rcases joinInnerNext_cases inner c d outer row (step setting false current)
            with ⟨a, -, hr⟩ | ⟨answer, -, hr⟩ | hr <;>
          simp [hr, movesAfterInner, Move.events]
  | _ => cases h

end Stream

/-! ## The order of the moves -/

/-- How far a join has come with its inputs. -/
inductive Phase where
  | idle
  /-- The outer stream is there, and no inner one. -/
  | between
  /-- The outer stream has given an element, for which the inner query is to be opened. -/
  | pulled
  | within
  /-- The outer stream has been dropped before the inner one. -/
  | leaving
  | over
  deriving DecidableEq

namespace Phase

/-- The phase after a move, if it is the turn of the move. -/
def after : Phase → Move → Option Phase
  | .idle, .opensOuter _ => some .between
  | .between, .asksOuter r => some (if (Move.asksOuter r).pullsRow then .pulled else .between)
  | .between, .dropsOuter _ => some .over
  | .pulled, .opensInner _ => some .within
  | .within, .asksInner _ => some .within
  | .within, .dropsInner _ => some .between
  | .within, .dropsOuter _ => some .leaving
  | .leaving, .dropsInner _ => some .over
  | _, _ => none

/-- The phase after several moves. -/
def afterAll (p : Phase) (ms : List Move) : Option Phase := ms.foldlM after p

/-- How often the outer query has been opened. -/
def opened : Phase → Nat
  | .idle => 0
  | _ => 1

/-- How many inner streams are alive. -/
def alive : Phase → Nat
  | .within => 1
  | .leaving => 1
  | _ => 0

/-- How many elements of the outer stream still wait for the inner query to be opened. -/
def due : Phase → Nat
  | .pulled => 1
  | _ => 0

/-- What is opened, pulled and dropped in some moves accounts for the change of the phase. -/
structure Accounts (p : Phase) (ms : List Move) (p' : Phase) : Prop where
  outer : p.opened + ms.countP Move.isOpensOuter = p'.opened
  rows : p.due + ms.countP Move.pullsRow = ms.countP Move.isOpensInner + p'.due
  inner : p.alive + ms.countP Move.isOpensInner = ms.countP Move.isDropsInner + p'.alive

theorem accounts_after {p p' : Phase} {m : Move} (h : p.after m = some p') :
    Accounts p [m] p' := by
  cases m with
  | asksOuter r =>
      cases p with
      | between =>
          cases h
          -- an element is due as soon as it is pulled
          cases hrow : (Move.asksOuter r).pullsRow with
          | true => exact ⟨rfl, by simp [hrow, due, Move.isOpensInner], rfl⟩
          | false => exact ⟨rfl, by simp [hrow, due, Move.isOpensInner], rfl⟩
      | _ => cases h
  | _ => cases p <;> cases h <;> exact ⟨rfl, rfl, rfl⟩

theorem Accounts.append {p p' p'' : Phase} {ms more : List Move} (h : Accounts p ms p')
    (h' : Accounts p' more p'') : Accounts p (ms ++ more) p'' := by
  have houter := h'.outer
  have hrows := h'.rows
  have hinner := h'.inner
  rw [← h.outer] at houter
  constructor
  · rw [List.countP_append]
    omega
  · have := h.rows
    rw [List.countP_append, List.countP_append]
    omega
  · have := h.inner
    rw [List.countP_append, List.countP_append]
    omega

/-- **Moves in order account for what they change.** -/
theorem accounts {p p' : Phase} {ms : List Move} (h : p.afterAll ms = some p') :
    Accounts p ms p' := by
  induction ms generalizing p with
  | nil =>
      cases h
      exact ⟨rfl, (Nat.zero_add _).symm, (Nat.zero_add _).symm⟩
  | cons m rest ih =>
      rw [afterAll, List.foldlM_cons] at h
      obtain ⟨middle, hm, hrest⟩ := Option.bind_eq_some_iff.mp h
      exact (accounts_after hm).append (ih hrest)

theorem afterAll_append (p : Phase) (ms more : List Move) :
    p.afterAll (ms ++ more) = (p.afterAll ms).bind (·.afterAll more) :=
  List.foldlM_append

end Phase

/-- The phase of a join, which a join that has closed may have reached in two ways. -/
def Stream.InPhase : Stream → Phase → Prop
  | .joinIdle .., p => p = .idle
  | .joinOuter .., p => p = .between
  | .joinInner .., p => p = .within
  | .closed, p => p = .idle ∨ p = .over
  | _, _ => False

namespace Stream

/-- **A round of a join makes its moves in order.** -/
theorem afterAll_moves (setting : Setting) (token : Bool) {s : Stream} {p : Phase}
    (h : s.InPhase p) :
    ∃ p', p.afterAll (s.moves setting token) = some p' ∧
      (step setting token s).next.InPhase p' := by
  cases s with
  | joinIdle outer inner condition combine =>
      obtain rfl := h
      cases token with
      | true => exact ⟨.idle, rfl, .inl rfl⟩
      | false =>
          rw [step, moves, if_neg Bool.false_ne_true, if_neg Bool.false_ne_true]
          rcases setting.compileBoth condition combine 2 with ⟨err | ⟨c, d⟩, events⟩
          · exact ⟨.idle, rfl, .inl rfl⟩
          · exact ⟨.between, rfl, rfl⟩
  | joinOuter inner c d outer =>
      obtain rfl := h
      cases token with
      | true => exact ⟨.over, rfl, .inr rfl⟩
      | false =>
          rw [step, moves, if_neg Bool.false_ne_true, if_neg Bool.false_ne_true]
          rcases step setting false outer with ⟨_ | v | e | _ | _, next, events⟩
          · exact ⟨.between, rfl, rfl⟩
          · exact ⟨.within, rfl, rfl⟩
          · exact ⟨.over, rfl, .inr rfl⟩
          · exact ⟨.between, rfl, rfl⟩
          · exact ⟨.over, rfl, .inr rfl⟩
  | joinInner inner c d outer row current =>
      obtain rfl := h
      cases token with
      | true => exact ⟨.over, rfl, .inr rfl⟩
      | false =>
          rw [step, moves, if_neg Bool.false_ne_true, if_neg Bool.false_ne_true]
          dsimp only
          rcases joinInnerNext_cases inner c d outer row (step setting false current)
            with ⟨a, -, hr⟩ | ⟨answer, -, hr⟩ | hr
          · rw [hr]
            exact ⟨.over, rfl, .inr rfl⟩
          · rw [hr]
            exact ⟨.within, rfl, rfl⟩
          · rw [hr]
            exact ⟨.between, rfl, rfl⟩
  | closed => exact ⟨p, rfl, h⟩
  | _ => exact absurd h id

theorem afterAll_movesAll (rounds : List Occasion) {s : Stream} {p : Phase} (h : s.InPhase p) :
    ∃ p', p.afterAll (s.movesAll rounds) = some p' ∧ p'.due = 0 := by
  induction rounds generalizing s p with
  | nil =>
      refine ⟨p, rfl, ?_⟩
      cases s with
      | closed => rcases h with rfl | rfl <;> rfl
      | joinIdle outer inner condition combine => rw [show p = .idle from h]; rfl
      | joinOuter inner c d outer => rw [show p = .between from h]; rfl
      | joinInner inner c d outer row current => rw [show p = .within from h]; rfl
      | _ => exact absurd h id
  | cons o rest ih =>
      obtain ⟨middle, hround, hnext⟩ := afterAll_moves o.setting o.cancelled h
      obtain ⟨p', hrest, hdue⟩ := ih hnext
      refine ⟨p', ?_, hdue⟩
      rw [movesAll, Phase.afterAll_append, hround]
      exact hrest

end Stream

namespace Phase

variable {ms before later : List Move} {p p' : Phase}

/-- At no moment more than one inner stream is alive. -/
theorem alive_le_one (p : Phase) : p.alive ≤ 1 := by
  cases p <;> decide

theorem opened_le_one (p : Phase) : p.opened ≤ 1 := by
  cases p <;> decide

/-- Moves in order were in order at every moment before. -/
theorem exists_afterAll_of_append (h : p.afterAll (before ++ later) = some p') :
    ∃ middle, p.afterAll before = some middle ∧ middle.afterAll later = some p' := by
  rw [afterAll_append] at h
  exact Option.bind_eq_some_iff.mp h

/-- When it is the turn of the outer stream, no inner stream is alive. -/
theorem alive_of_asksOuter {r : Round Stream} (h : p.after (.asksOuter r) = some p') :
    p.alive = 0 := by
  cases p with
  | between => rfl
  | _ => cases h

/-- What has been opened and dropped before any moment leaves the inner streams that are alive. -/
theorem alive_of_idle (h : Phase.idle.afterAll ms = some p) :
    ms.countP Move.isOpensInner = ms.countP Move.isDropsInner + p.alive :=
  (Nat.zero_add _).symm.trans (accounts h).inner

end Phase

/-- The moves of a join that enumerates its inner query anew for each outer element, one enumeration
at a time. -/
structure Move.InTurn (ms : List Move) : Prop where
  /-- The outer query is opened once. -/
  outer_once : ms.countP isOpensOuter ≤ 1
  /-- The inner query is opened for every element that is pulled, and for nothing else. -/
  inner_per_row : ms.countP isOpensInner = ms.countP pullsRow
  /-- At every moment, what has been dropped was there, and one inner stream at most is alive. -/
  one_alive : ∀ before later, ms = before ++ later →
    before.countP isDropsInner ≤ before.countP isOpensInner ∧
      before.countP isOpensInner ≤ before.countP isDropsInner + 1
  /-- The outer stream is asked only when every inner stream has been dropped. -/
  outer_waits : ∀ before r later, ms = before ++ .asksOuter r :: later →
    before.countP isOpensInner = before.countP isDropsInner

/-- **A join moves in turn**, in any number of rounds. -/
theorem Stream.inTurn_movesAll (outer inner : Query) (condition combine : Expr)
    (rounds : List Occasion) :
    Move.InTurn ((Stream.joinIdle outer inner condition combine).movesAll rounds) := by
  obtain ⟨p, hp, hdue⟩ :=
    afterAll_movesAll (s := .joinIdle outer inner condition combine) (p := .idle) rounds rfl
  have hall := Phase.accounts hp
  refine ⟨?_, ?_, ?_, ?_⟩
  · have houter := (Nat.zero_add _).symm.trans hall.outer
    rw [houter]
    exact p.opened_le_one
  · have hrows := (Nat.zero_add _).symm.trans hall.rows
    rw [hdue, Nat.add_zero] at hrows
    exact hrows.symm
  · intro before later hsplit
    rw [hsplit] at hp
    obtain ⟨p', hbefore, -⟩ := Phase.exists_afterAll_of_append hp
    have hinner := Phase.alive_of_idle hbefore
    have halive := p'.alive_le_one
    omega
  · intro before r later hsplit
    rw [hsplit] at hp
    obtain ⟨p', hbefore, hlater⟩ := Phase.exists_afterAll_of_append hp
    rw [Phase.afterAll, List.foldlM_cons] at hlater
    obtain ⟨p'', hafter, -⟩ := Option.bind_eq_some_iff.mp hlater
    rw [Phase.alive_of_idle hbefore, Phase.alive_of_asksOuter hafter, Nat.add_zero]

/-! ## Joins inside other streams -/

namespace Stream

/-- A stream after a round for every occasion. -/
def afterRounds (rounds : List Occasion) (s : Stream) : Stream :=
  rounds.foldl (fun s o => (step o.setting o.cancelled s).next) s

/-- The streams that a stream holds, itself included. -/
def parts : Stream → List Stream
  | .counting counter inner => .counting counter inner :: parts inner
  | .cancellable inner => .cancellable inner :: parts inner
  | .filterOpen c input => .filterOpen c input :: parts input
  | .projectOpen c input => .projectOpen c input :: parts input
  | .joinOuter inner c d outer => .joinOuter inner c d outer :: parts outer
  | .joinInner inner c d outer row current =>
    .joinInner inner c d outer row current :: (parts outer ++ parts current)
  | s => [s]

/-- A join that has come from a new one by rounds of its own. -/
def ByRounds (s : Stream) : Prop :=
  ∃ (outer inner : Query) (condition combine : Expr) (rounds : List Occasion),
    s = (Stream.joinIdle outer inner condition combine).afterRounds rounds

theorem ByRounds.step {s : Stream} (h : s.ByRounds) (setting : Setting) (token : Bool) :
    (step setting token s).next.ByRounds := by
  obtain ⟨outer, inner, condition, combine, rounds, rfl⟩ := h
  refine ⟨outer, inner, condition, combine, rounds ++ [⟨setting, token⟩], ?_⟩
  rw [afterRounds, afterRounds, List.foldl_append]
  rfl

/-- All joins that a stream holds have come there by rounds of their own. -/
def JoinsByRounds (s : Stream) : Prop := ∀ t ∈ s.parts, t.isJoin = true → t.ByRounds

namespace JoinsByRounds

/-- A stream that holds another one holds the joins of the other one, and may be one itself. -/
theorem cons {s inner : Stream} (hparts : s.parts = s :: inner.parts)
    (hself : s.isJoin = true → s.ByRounds) (h : inner.JoinsByRounds) : s.JoinsByRounds := by
  rw [JoinsByRounds, hparts, List.forall_mem_cons]
  exact ⟨hself, h⟩

/-- A stream that holds no other has only itself to look at. -/
theorem alone {s : Stream} (hparts : s.parts = [s]) (hself : s.isJoin = true → s.ByRounds) :
    s.JoinsByRounds := by
  rw [JoinsByRounds, hparts, List.forall_mem_singleton]
  exact hself

theorem closed : JoinsByRounds .closed := alone rfl (fun h => by cases h)

theorem tail {s inner : Stream} (h : s.JoinsByRounds) (hparts : s.parts = s :: inner.parts) :
    inner.JoinsByRounds := by
  rw [JoinsByRounds, hparts, List.forall_mem_cons] at h
  exact h.2

theorem stream (q : Query) : q.stream.JoinsByRounds := by
  induction q with
  | counting counter input ih => exact cons rfl (fun h => by cases h) ih
  | absorbing name supported refusal input ih => exact ih
  | declining supported input ih => exact ih
  | localJoin outer inner condition combine =>
      exact alone rfl (fun _ => ⟨outer, inner, condition, combine, [], rfl⟩)
  | values rows | sql q =>
      exact cons rfl (fun h => by cases h) (alone rfl (fun h => by cases h))
  | script name items observes =>
      cases observes with
      | true => exact cons rfl (fun h => by cases h) (alone rfl (fun h => by cases h))
      | false => exact alone rfl (fun h => by cases h)
  | _ => exact alone rfl (fun h => by cases h)

/-- The input that an operator opens stands in an adapter. -/
theorem opened (q : Query) : (Stream.cancellable q.stream).JoinsByRounds :=
  cons rfl (fun h => by cases h) (stream q)

theorem joinInner {inner : Query} {c d : CompiledExpr} {outer current : Stream} {row : Value}
    (hself : (Stream.joinInner inner c d outer row current).ByRounds) (houter : outer.JoinsByRounds)
    (hcurrent : current.JoinsByRounds) :
    (Stream.joinInner inner c d outer row current).JoinsByRounds := by
  intro t ht
  rw [parts, List.mem_cons, List.mem_append] at ht
  rcases ht with rfl | ht | ht
  · exact fun _ => hself
  · exact houter t ht
  · exact hcurrent t ht

section Operators

variable {r : Round Stream}

theorem filterNext (c : CompiledExpr) (h : r.next.JoinsByRounds) :
    (filterNext c r).next.JoinsByRounds := by
  rcases filterNext_cases c r with ⟨a, -, hr⟩ | ⟨answer, -, hr⟩
  · rw [hr]
    exact closed
  · rw [hr]
    exact cons rfl (fun h => by cases h) h

theorem projectNext (c : CompiledExpr) (h : r.next.JoinsByRounds) :
    (projectNext c r).next.JoinsByRounds := by
  rcases projectNext_cases c r with ⟨a, -, hr⟩ | ⟨answer, -, hr⟩
  · rw [hr]
    exact closed
  · rw [hr]
    exact cons rfl (fun h => by cases h) h

theorem joinOuterNext (inner : Query) (c d : CompiledExpr)
    (hself : (joinOuterNext inner c d r).next.ByRounds) (h : r.next.JoinsByRounds) :
    (joinOuterNext inner c d r).next.JoinsByRounds := by
  rcases joinOuterNext_cases inner c d r with ⟨a, -, hr⟩ | ⟨answer, -, hr⟩ | ⟨row, hr⟩
  · rw [hr]
    exact closed
  · rw [hr] at hself ⊢
    exact cons rfl (fun _ => hself) h
  · rw [hr] at hself ⊢
    exact joinInner hself h (opened inner)

theorem joinInnerNext (inner : Query) (c d : CompiledExpr) {outer : Stream} (row : Value)
    (hself : (joinInnerNext inner c d outer row r).next.ByRounds) (houter : outer.JoinsByRounds)
    (h : r.next.JoinsByRounds) : (joinInnerNext inner c d outer row r).next.JoinsByRounds := by
  rcases joinInnerNext_cases inner c d outer row r with ⟨a, -, hr⟩ | ⟨answer, -, hr⟩ | hr
  · rw [hr]
    exact closed
  · rw [hr] at hself ⊢
    exact joinInner hself houter h
  · rw [hr] at hself ⊢
    exact cons rfl (fun _ => hself) houter

theorem around (token : Bool) (inner : Stream) (h : r.next.JoinsByRounds) :
    ((Cancellable.around release token inner (fun _ => r)).map adapter).next.JoinsByRounds := by
  obtain ⟨answer, next, events⟩ := r
  cases token with
  | true => exact closed
  | false =>
      rcases answer with _ | v | e | _ | _
      · exact cons rfl (fun h => by cases h) h
      · exact cons rfl (fun h => by cases h) h
      · exact cons rfl (fun h => by cases h) h
      · exact cons rfl (fun h => by cases h) h
      · exact closed

end Operators

theorem leaf {s : Stream} (h : s.isLeaf = true) : s.JoinsByRounds := by
  cases s with
  | values _ | script _ _ | stalled | failing _ | sqlExecuting _ _ | sqlReading _ _ | closed =>
      exact alone rfl (fun hjoin => by cases hjoin)
  | _ => cases h

/-- A round of a join is a round of its own, whatever holds it. -/
theorem self {s : Stream} (h : s.JoinsByRounds) (hs : s ∈ s.parts) (hjoin : s.isJoin = true)
    (setting : Setting) (token : Bool) : (Stream.step setting token s).next.ByRounds :=
  (h s hs hjoin).step setting token

/-- **What a stream holds takes rounds of its own in the rounds of the stream.** -/
theorem step (setting : Setting) (token : Bool) {s : Stream} (h : s.JoinsByRounds) :
    (step setting token s).next.JoinsByRounds := by
  induction s with
  | counting counter inner ih => exact cons rfl (fun h => by cases h) (ih (h.tail rfl))
  | cancellable inner ih => exact around token inner (ih (h.tail rfl))
  | filterIdle input p =>
      rw [Stream.step]
      split
      · exact closed
      · split
        · exact closed
        · exact cons rfl (fun h => by cases h) (opened input)
  | filterOpen c input ih =>
      rw [Stream.step]
      split
      · exact closed
      · exact filterNext c (ih (h.tail rfl))
  | projectIdle input e =>
      rw [Stream.step]
      split
      · exact closed
      · split
        · exact closed
        · exact cons rfl (fun h => by cases h) (opened input)
  | projectOpen c input ih =>
      rw [Stream.step]
      split
      · exact closed
      · exact projectNext c (ih (h.tail rfl))
  | joinIdle outer inner condition combine =>
      have hself := h.self List.mem_cons_self rfl setting token
      rw [Stream.step] at hself ⊢
      split
      · exact closed
      · rename_i htoken
        rw [if_neg htoken] at hself
        rcases hs : setting.compileBoth condition combine 2 with ⟨err | ⟨c, d⟩, events⟩
        · exact closed
        · rw [hs] at hself
          exact cons rfl (fun _ => hself) (opened outer)
  | joinOuter inner c d outer ih =>
      have hself := h.self List.mem_cons_self rfl setting token
      rw [Stream.step] at hself ⊢
      split
      · exact closed
      · rename_i htoken
        rw [if_neg htoken] at hself
        exact joinOuterNext inner c d hself (ih (h.tail rfl))
  | joinInner inner c d outer row current ihOuter ihCurrent =>
      have hself := h.self List.mem_cons_self rfl setting token
      have houter : outer.JoinsByRounds := fun t ht =>
        h t (List.mem_cons_of_mem _ (List.mem_append_left _ ht))
      have hcurrent : current.JoinsByRounds := fun t ht =>
        h t (List.mem_cons_of_mem _ (List.mem_append_right _ ht))
      rw [Stream.step] at hself ⊢
      split
      · exact closed
      · rename_i htoken
        rw [if_neg htoken] at hself
        exact joinInnerNext inner c d row hself houter (ihCurrent hcurrent)
  | sqlIdle q =>
      rw [Stream.step, sqlStart]
      split
      · exact closed
      · dsimp only
        split
        · exact closed
        · exact alone rfl (fun h => by cases h)
  | _ => exact leaf (step_isLeaf setting token rfl).1

theorem afterRounds (rounds : List Occasion) {s : Stream} (h : s.JoinsByRounds) :
    (s.afterRounds rounds).JoinsByRounds := by
  induction rounds generalizing s with
  | nil => exact h
  | cons o rest ih => exact ih (h.step o.setting o.cancelled)

end JoinsByRounds

end Stream

/-- A new stream of an operator has no stream inside it. -/
theorem Query.openedInside_of_isLocal {q : Query} (h : q.stream.isLocal = true) :
    q.openedInside = [] ∧ q.stream.counters = [] := by
  induction q with
  | localFilter input p => exact ⟨rfl, rfl⟩
  | localProject input e => exact ⟨rfl, rfl⟩
  | localJoin outer inner condition combine => exact ⟨rfl, rfl⟩
  | absorbing name supported refusal input ih => exact ih h
  | declining supported input ih => exact ih h
  | script name items observes => cases observes <;> cases h
  | _ => cases h

/-- **Nothing is opened or taken before it is needed.** A new stream of an operator has opened
nothing and holds nothing. Let all leaves of a query follow scripts. When its stream has answered
with some number of results, elements, errors or ends, what has been opened and taken at every place
is what the nested loop of the query reaches on the way to that many results, whatever the polls
before have found around the stream. The values of the loop are the listing of the query, and what
is on record is what the polls answer, open and poll. A join, over any inputs and in any number of
rounds, with or without a cancellation, opens its outer query once and its inner query once for each
element that it pulls; it has one inner stream at a time, and none while it asks the outer one. A
join inside other streams, wherever it stands and however it has come there, has done so by such
rounds, and nothing happens in its next one but what it does with its inputs and the compiling of
its expressions. -/
theorem Query.nothing_taken_ahead (q : Query) (h : q.Replays) :
    (q.stream.isLocal = true → q.openEvents = [.opened q] ∧ q.stream.counters = []) ∧
    q.course.bare = q.trace.settled ∧
    (∀ (settings : List Setting) (k : Nat),
      k ≤ (resultsOf (q.stream.record (settings.map .live))).length →
      q.stream.isLocal = true ∨ k ≤ (resultsOf q.course.record).length →
      untilResult k (q.stream.record (settings.map .live))
        = untilResult k (q.course.record ++ List.replicate k (.inr .finished))) ∧
    (∀ occasions : List Occasion,
      (q.stream.record occasions).filterMap Sum.getRight? = (q.stream.pollAll occasions).answers ∧
      (q.stream.pollAll occasions).events.filter Event.reaches
        = (q.stream.reached occasions).flatMap Note.events) ∧
    (∀ (outer inner : Query) (condition combine : Expr) (rounds : List Occasion),
      Move.InTurn ((Query.localJoin outer inner condition combine).stream.movesAll rounds)) ∧
    (∀ (any : Query) (rounds : List Occasion), ∀ t ∈ (any.stream.afterRounds rounds).parts,
      t.isJoin = true →
      (∃ (outer inner : Query) (condition combine : Expr) (own : List Occasion),
        t = (Query.localJoin outer inner condition combine).stream.afterRounds own) ∧
      ∀ (setting : Setting) (token : Bool), ∃ compiled : List Event,
        (∀ e ∈ compiled, ∃ cell, e = .compiled cell) ∧
          (Stream.step setting token t).events
            = compiled ++ (t.moves setting token).flatMap Move.events) := by
  refine ⟨?_, bare_course h, ?_, ?_, Stream.inTurn_movesAll, ?_⟩
  · intro hlocal
    obtain ⟨hinside, hcounters⟩ := openedInside_of_isLocal hlocal
    rw [openEvents, hinside]
    exact ⟨rfl, hcounters⟩
  · intro settings k hrun hend
    have hcourse := Stream.course_stream q
    rw [← hcourse] at hend ⊢
    exact Stream.untilResult_record (Stream.scripted_stream h) hrun (hend.imp_left .inl)
      (Nat.le_refl k)
  · intro occasions
    exact ⟨Stream.answers_of_record occasions q.stream,
      Stream.filter_reaches_pollAll occasions q.stream⟩
  · intro any rounds t ht hjoin
    exact ⟨(Stream.JoinsByRounds.stream any).afterRounds rounds t ht hjoin,
      fun setting token => Stream.exists_events_eq_moves setting token hjoin⟩

/-- A join of two elements with those of a script that pauses first. -/
def Query.unhurried : Query :=
  .localJoin (.values [.int64 1, .int64 2])
    (.script "s" [.pending, .value (.int64 3), .value (.int64 4)] true)
    (.constant (.boolean true)) (.argument 1)

/-- It answers its second poll with an element. Until then it has taken one element of the outer
query and two entries of the script, and left the others. -/
theorem Query.nothing_taken_ahead_unhurried :
    unhurried.Replays ∧
      untilResult 1 (unhurried.stream.record ((List.replicate 2 .initial).map .live))
        = [.inl (.opened .outer (.values [.int64 1, .int64 2])),
          .inl ⟨[.outer], .took .values (some (.value (.int64 1)))⟩,
          .inl (.opened .inner
            (.script "s" [.pending, .value (.int64 3), .value (.int64 4)] true)),
          .inl ⟨[.inner], .took (.script "s") (some .pending)⟩,
          .inl ⟨[.inner], .took (.script "s") (some (.value (.int64 3)))⟩,
          .inr (.row (.int64 3))] := by
  have hreplays : unhurried.Replays := ⟨trivial, trivial⟩
  obtain ⟨-, -, hahead, hrecord, -, -⟩ := nothing_taken_ahead unhurried hreplays
  have hrun : 1 ≤ (resultsOf (unhurried.stream.record
      ((List.replicate 2 .initial).map .live))).length := by
    rw [resultsOf, (hrecord _).1]
    decide +kernel
  exact ⟨hreplays, hahead (List.replicate 2 .initial) 1 hrun (.inl rfl)⟩

end RowQuery
