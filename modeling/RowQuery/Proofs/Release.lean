import Mathlib.Data.List.Perm.Basic
import RowQuery.Proofs.Balance
import RowQuery.Proofs.Journal

set_option autoImplicit false

/-! # Release of resources

What every round accounts for (`RowQuery.Proofs.Balance`) is carried over to whole enumerations and
to sessions. An enumeration may be interrupted anywhere, by anything, and between two rounds the
token may be cancelled; whatever happens, what has been opened so far is what has been dropped and
what the stream still holds (`Query.Enumeration.balances`). The stream of an operator that has
answered with the end or an error has closed, and holds nothing.

In a session the streams of many enumerations are held at once. The journal accounts for all of them
together, after every action (`Session.Reached.accounted`).
-/

namespace RowQuery

open Session (openedBy droppedBy)

/-! ## Polls -/

namespace Stream

theorem balances_poll (setting : Setting) (token : Bool) (s : Stream) :
    Balances (poll setting token s).events s.counters (poll setting token s).next.counters := by
  fun_induction poll setting token s with
  | case1 setting s answer next events hs =>
      have hstep := balances_step setting token s
      rwa [hs] at hstep
  | case2 setting s next events hs rest ih =>
      have hstep := balances_step setting token s
      rw [hs] at hstep
      exact hstep.append ih

theorem balances_drain (setting : Setting) (token : Bool) (s : Stream) :
    Balances (s.drain setting token).events s.counters (s.drain setting token).next.counters := by
  fun_induction drain setting token s with
  | case1 setting s v hv p rest ih => exact (balances_poll setting token s).append ih
  | case2 setting s e he p rest ih => exact (balances_poll setting token s).append ih
  | case3 setting s p hrow herror => exact balances_poll setting token s

/-- Whatever comes of it, a stream whose elements are gathered is dropped in the end. -/
theorem balances_gather {α : Type} (setting : Setting) (make : Value → Except QueryError α)
    (s : Stream) : Balances (s.gather setting make).events s.counters [] := by
  have hdropped : ∀ setting s, Balances
      ((poll setting false s).events ++ (poll setting false s).next.release) s.counters [] := by
    intro setting s
    exact (balances_poll setting false s).append (.release _)
  fun_induction gather setting make s with
  | case1 setting s p v hv e he => exact hdropped setting s
  | case2 setting s p v hv a ha rest ih => exact (balances_poll setting false s).append ih
  | case3 setting s p e he => exact hdropped setting s
  | case4 setting s p hpending => exact hdropped setting s
  | case5 setting s p hfinished => exact hdropped setting s

end Stream

/-! ## Enumerations -/

namespace Query

/-- A stream of a query after any number of rounds, and everything that has happened with it since
it was opened. Between two rounds the surroundings and the token may change in any way. -/
inductive Enumeration (q : Query) : List Event → Stream → Prop
  | opened : Enumeration q q.openEvents q.stream
  | round {events : List Event} {s : Stream} (h : Enumeration q events s) (setting : Setting)
    (token : Bool) :
    Enumeration q (events ++ (Stream.step setting token s).events)
      (Stream.step setting token s).next

namespace Enumeration

variable {q : Query} {events : List Event} {s : Stream}

/-- A poll goes on with an enumeration. -/
theorem poll (h : Enumeration q events s) (setting : Setting) (token : Bool) :
    Enumeration q (events ++ (Stream.poll setting token s).events)
      (Stream.poll setting token s).next := by
  -- what has happened before is left open: every round adds to it
  suffices hall : ∀ before, Enumeration q before s →
      Enumeration q (before ++ (Stream.poll setting token s).events)
        (Stream.poll setting token s).next from hall events h
  clear h
  fun_induction Stream.poll setting token s with
  | case1 setting s answer next more hs =>
      intro before hbefore
      have hround := hbefore.round setting token
      rwa [hs] at hround
  | case2 setting s next more hs rest ih =>
      intro before hbefore
      have hround := hbefore.round setting token
      rw [hs] at hround
      have hrest := ih _ hround
      rwa [List.append_assoc] at hrest

/-- What has been opened so far is what has been dropped and what the stream still holds. -/
theorem balances (h : Enumeration q events s) : Balances events [] s.counters := by
  induction h with
  | opened => exact q.balances_openEvents
  | round h setting token ih => exact ih.append (Stream.balances_step setting token _)

/-- The stream of an operator belongs to the operator until it closes. -/
theorem isLocal_or_closed (h : Enumeration q events s) (hq : q.stream.isLocal = true) :
    s.isLocal = true ∨ s = .closed := by
  induction h with
  | opened => exact .inl hq
  | round h setting token ih =>
      rcases ih with hlocal | rfl
      · have hstep := Stream.closesWithLast_step setting token hlocal
        unfold Stream.closesWithLast at hstep
        split at hstep
        · exact .inr hstep
        · exact .inl hstep
      · exact .inr rfl

/-- With the end or an error as its answer the stream of an operator has closed. -/
theorem closed_of_isLast (h : Enumeration q events s) (hq : q.stream.isLocal = true)
    {setting : Setting} {token : Bool}
    (hlast : (Stream.poll setting token s).answer.isLast = true) :
    (Stream.poll setting token s).next = .closed := by
  rcases h.isLocal_or_closed hq with hlocal | rfl
  · have hpoll := Stream.closesWithLast_poll setting token hlocal
    rwa [Stream.closesWithLast, Option.any_some, if_pos hlast] at hpoll
  · rw [Stream.poll_closed]

end Enumeration

theorem balances_gather {α : Type} (setting : Setting) (make : Value → Except QueryError α)
    (q : Query) : Balances (q.gather setting make).events [] [] :=
  q.balances_openEvents.append (Stream.balances_gather setting make q.stream)

end Query

/-! ## Sessions -/

namespace Session

/-- The counters of all counting streams that are reachable from the streams held in a session. -/
def held (s : Session) : List Nat := s.streams.flatMap (fun e => e.2.stream.counters)

/-- The journal accounts for the streams that are held under names, and for those `besides` them. -/
structure Accounts (s : Session) (besides : List Nat) : Prop where
  distinct : (s.streams.map (·.1)).Nodup
  balances : Balances s.journal [] (besides ++ s.held)

namespace Accounts

variable {s s' : Session} {besides : List Nat}

theorem composed (h : Accounts s besides) (hs : Composed s s') : Accounts s' besides := by
  obtain ⟨hstreams, -, events, hjournal, hevents⟩ := hs
  have hquiet : ∀ e ∈ events, e.isQuiet = true := by
    intro e he
    obtain ⟨source, op, rfl⟩ := hevents e he
    rfl
  constructor
  · rw [hstreams]
    exact h.distinct
  · rw [hjournal, held, hstreams]
    exact h.balances.append (.quiet hquiet _)

/-- Events change what is held besides. -/
theorem record {after : List Nat} {events : List Event} (h : Accounts s besides)
    (hevents : Balances events besides after) : Accounts (s.record events) after :=
  ⟨h.distinct, h.balances.append (hevents.frame_right s.held)⟩

/-- Only the streams and the journal count. -/
theorem congr (h : Accounts s besides) (hstreams : s'.streams = s.streams)
    (hjournal : s'.journal = s.journal) : Accounts s' besides := by
  constructor
  · rw [hstreams]
    exact h.distinct
  · rw [held, hstreams, hjournal]
    exact h.balances

/-- A stream that is taken out of its name is held besides. -/
theorem take (h : Accounts s besides) {name : String} {x : OpenStream}
    (hname : s.streams.get? name = some x) :
    Accounts { s with streams := s.streams.erase name } (x.stream.counters ++ besides) := by
  refine ⟨Named.nodup_erase h.distinct name, h.balances.perm (List.Perm.refl _) ?_⟩
  have hheld : s.held.Perm (x.stream.counters ++
      (s.streams.erase name).flatMap (fun e => e.2.stream.counters)) :=
    (Named.perm_of_get? h.distinct hname).flatMap_right _
  calc (besides ++ s.held).Perm (besides ++ (x.stream.counters ++ _)) := hheld.append_left besides
    _ = besides ++ x.stream.counters ++ _ := (List.append_assoc _ _ _).symm
    (_ : List Nat).Perm (x.stream.counters ++ besides ++ _) := List.perm_append_comm.append_right _

/-- A stream that was held besides is put under a name. -/
theorem put {name : String} {x : OpenStream} (h : Accounts s (x.stream.counters ++ besides))
    (hname : s.streams.get? name = none) :
    Accounts { s with streams := s.streams.set name x } besides := by
  refine ⟨Named.nodup_set h.distinct name x, h.balances.perm (List.Perm.refl _) ?_⟩
  show (x.stream.counters ++ besides ++ s.held).Perm
    (besides ++ (s.streams.set name x).flatMap (fun e => e.2.stream.counters))
  rw [Named.set, Named.erase_of_notMem (Named.get?_eq_none_iff.mp hname), List.flatMap_cons,
    ← List.append_assoc]
  exact List.perm_append_comm.append_right _

/-- A stream goes on under its name. -/
theorem advance (h : Accounts s []) {name : String} {x y : OpenStream}
    (hname : s.streams.get? name = some x) {events : List Event}
    (hevents : Balances events x.stream.counters y.stream.counters) :
    Accounts ({ s with streams := s.streams.set name y }.record events) [] := by
  -- the stream is taken out, polled while it is held besides, and put back
  have htaken := h.take hname
  rw [List.append_nil] at htaken
  have hput : Accounts _ [] := put (by
    rw [List.append_nil]
    exact htaken.record hevents) (Named.get?_erase_self s.streams name)
  exact hput.congr (Named.set_erase s.streams name y).symm rfl

theorem dropStream (h : Accounts s besides) (name : String) :
    Accounts (s.dropStream name).2 besides ∧ (s.dropStream name).2.streams.get? name = none := by
  unfold Session.dropStream
  cases hname : s.streams.get? name with
  | none => exact ⟨h, hname⟩
  | some x =>
      have hrelease := (Balances.release x.stream.counters).frame_right besides
      exact ⟨(h.take hname).record hrelease, Named.get?_erase_self s.streams name⟩

end Accounts

/-- Every action keeps the account. -/
theorem Acts.accounts {s s' : Session} (hact : Acts s s') (h : Accounts s []) : Accounts s' [] := by
  cases hact with
  | define hdefine =>
      obtain ⟨⟨q', between⟩, hbuild, heq⟩ := Option.bind_eq_some_iff.mp hdefine
      cases heq
      exact (h.composed (composed_build hbuild)).congr rfl rfl
  | @openStream _ name token plan q hopen =>
      obtain ⟨⟨q', between⟩, hbuild, heq⟩ := Option.bind_eq_some_iff.mp hopen
      cases heq
      -- the new stream is open before an older one of that name is dropped
      have hopened : Accounts (between.record q.openEvents) q.stream.counters :=
        (h.composed (composed_build hbuild)).record q.balances_openEvents
      obtain ⟨hdropped, hname⟩ := hopened.dropStream name
      refine Accounts.put ?_ hname
      rw [List.append_nil]
      exact hdropped
  | next hnext =>
      obtain ⟨x, hname, heq⟩ := Option.bind_eq_some_iff.mp hnext
      cases heq
      exact h.advance hname (Stream.balances_poll _ _ _)
  | drain hdrain =>
      obtain ⟨x, hname, heq⟩ := Option.bind_eq_some_iff.mp hdrain
      cases heq
      exact h.advance hname (Stream.balances_drain _ _ _)
  | dropStream name => exact (h.dropStream name).1
  | cancel token => exact h.congr rfl rfl
  | gather hgather =>
      obtain ⟨⟨q, between⟩, hbuild, heq⟩ := Option.bind_eq_some_iff.mp hgather
      cases heq
      exact (h.composed (composed_build hbuild)).record (Query.balances_gather _ _ q)
  | setBehavior hset =>
      obtain ⟨attached, -, heq⟩ := Option.bind_eq_some_iff.mp hset
      cases heq
      exact h.congr rfl rfl
  | @command _ connection issued result hcommand =>
      obtain ⟨attached, -, hrest⟩ := Option.bind_eq_some_iff.mp hcommand
      dsimp only at hrest
      split at hrest
      · cases hrest
        exact h.record (.quiet (fun e he => by rw [List.mem_singleton.mp he]; rfl) [])
      · have hissued := h.record (.quiet (Stream.isQuiet_of_mem_issued connection issued) [])
        split at hrest
        · cases hrest
          exact hissued
        · cases hrest
          refine hissued.record (.quiet ?_ [])
          intro e he
          rw [List.eq_of_mem_replicate he]
          rfl
        · cases hrest
          exact hissued
  | supports hsupports =>
      obtain ⟨⟨q, between⟩, hbuild, heq⟩ := Option.bind_eq_some_iff.mp hsupports
      cases heq
      exact h.composed (composed_build hbuild)
  | pushDown hpush =>
      obtain ⟨⟨q, between⟩, hbuild, hrest⟩ := Option.bind_eq_some_iff.mp hpush
      obtain ⟨⟨op', second⟩, hop, heq⟩ := Option.bind_eq_some_iff.mp hrest
      have hcomposed := ((composed_build hbuild).trans (composed_buildOperator hop)).trans
        (composed_noteCalls second (q.handOver op').calls)
      have haccounts := h.composed hcomposed
      dsimp only at heq
      split at heq
      · cases heq
        exact haccounts.congr rfl rfl
      · cases heq
        exact haccounts

/-- The journal accounts for the streams that are held, at every moment between two actions. -/
theorem Reached.accounts {connections : Named Attached} {s : Session}
    (h : Reached connections s) : Accounts s [] := by
  induction h with
  | new => exact ⟨List.nodup_nil, .release []⟩
  | act h hact ih => exact hact.accounts ih

end Session

/-- A round in which an operator answers with the end or an error drops everything that it held. -/
theorem Stream.closed_of_round {s : Stream} (h : s.isLocal = true) {setting : Setting}
    {token : Bool} (hlast : (step setting token s).answer.any Answer.isLast = true) :
    (step setting token s).next = .closed ∧
      Balances (step setting token s).events s.counters [] := by
  have hclosed : (step setting token s).next = .closed := by
    have hstep := closesWithLast_step setting token h
    rwa [closesWithLast, if_pos hlast] at hstep
  refine ⟨hclosed, ?_⟩
  have hbalances := balances_step setting token s
  rwa [hclosed] at hbalances

/-- **Every stream that is opened is released.** In a session no counter is ever told of more drops
than openings, and between two actions its openings are its drops and those of its streams that can
be reached from a stream that is still held. In an enumeration, however far it has come and whatever
happens around it, everything opened beneath has been dropped when the stream is dropped, and when
an operator answers a poll with the end or an error. An operator that is polled by another stream
drops what it holds within the round in which it answers so. -/
theorem released_on_every_path (counter : Nat) :
    (∀ connections s, Session.Reached connections s →
      (∀ first, first <+: s.journal → droppedBy first counter ≤ openedBy first counter) ∧
      openedBy s.journal counter = droppedBy s.journal counter + s.held.count counter) ∧
    (∀ (q : Query) (events : List Event) (s : Stream), q.Enumeration events s →
      (∀ first, first <+: events → droppedBy first counter ≤ openedBy first counter) ∧
      openedBy events counter = droppedBy events counter + s.counters.count counter ∧
      openedBy (events ++ s.release) counter = droppedBy (events ++ s.release) counter ∧
      ∀ setting token, q.stream.isLocal = true →
        (Stream.poll setting token s).answer.isLast = true →
        (Stream.poll setting token s).next = .closed ∧
        openedBy (events ++ (Stream.poll setting token s).events) counter
          = droppedBy (events ++ (Stream.poll setting token s).events) counter) ∧
    (∀ (s : Stream) setting token, s.isLocal = true →
      (Stream.step setting token s).answer.any Answer.isLast = true →
      (Stream.step setting token s).next = .closed ∧
      openedBy (Stream.step setting token s).events counter + s.counters.count counter
        = droppedBy (Stream.step setting token s).events counter) := by
  refine ⟨?_, ?_, ?_⟩
  · intro connections s h
    have hbalances := h.accounts.balances
    exact ⟨fun first hfirst => hbalances.droppedBy_le hfirst counter, hbalances.openedBy_eq counter⟩
  · intro q events s h
    refine ⟨fun first hfirst => h.balances.droppedBy_le hfirst counter,
      h.balances.openedBy_eq counter, ?_, ?_⟩
    · exact (h.balances.append (.release s.counters)).openedBy_eq counter
    · intro setting token hlocal hlast
      -- what has closed holds nothing any more
      have hclosed := h.closed_of_isLast hlocal hlast
      have hpoll := (h.poll setting token).balances.openedBy_eq counter
      rw [hclosed] at hpoll
      exact ⟨hclosed, hpoll⟩
  · intro s setting token hlocal hlast
    obtain ⟨hclosed, hbalances⟩ := Stream.closed_of_round hlocal hlast
    exact ⟨hclosed, hbalances.openedBy_add counter⟩

end RowQuery
