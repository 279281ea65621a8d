import RowQuery.Proofs.Schedule
import RowQuery.Session.Basic

set_option autoImplicit false

/-! # Opened and dropped streams

Every counting stream that a stream opens is dropped again. This is accounted for event by event:
the events of a round take the counters that a stream holds before it to those that it holds
afterwards (`Stream.balances_step`), and on the way no counter is told of more drops than there are
streams of it alive. Accounts of successive events add up (`Balances.append`), and what is held
elsewhere meanwhile does not matter (`Balances.frame_left`), so each operator only has to account
for itself.
-/

namespace RowQuery

open Session (opens releases openedBy droppedBy)

namespace Event

/-- How many streams of a counter are alive after an event, when `n` were before it; none is the
result if more are dropped than are alive. -/
def alive (counter : Nat) (n : Nat) (e : Event) : Option Nat :=
  if opens counter e then some (n + 1)
  else if releases counter e then if n = 0 then none else some (n - 1)
  else some n

/-- Whether an event concerns no counter. -/
def isQuiet : Event → Bool
  | .opened q => q.counter?.isNone
  | .released _ => false
  | _ => true

theorem alive_of_isQuiet {e : Event} (h : e.isQuiet = true) (counter n : Nat) :
    e.alive counter n = some n := by
  have hopens : opens counter e = false := by
    cases e with
    | opened q =>
        show (q.counter? == some counter) = false
        rw [Option.isNone_iff_eq_none.mp h]
        rfl
    | _ => rfl
  have hreleases : releases counter e = false := by
    cases e with
    | released c => cases h
    | _ => rfl
  rw [alive, hopens, hreleases]
  rfl

/-- What is alive after an event is what was alive before it and what it opens, without what it
drops. -/
theorem openedBy_alive {counter n m : Nat} {e : Event} (h : e.alive counter n = some m) :
    openedBy [e] counter + n = droppedBy [e] counter + m := by
  have hexclusive : opens counter e = true → releases counter e = false := by
    intro hopens
    cases e with
    | opened q => rfl
    | _ => cases hopens
  rw [openedBy, droppedBy, List.countP_singleton, List.countP_singleton]
  unfold alive at h
  by_cases hopens : opens counter e = true
  · rw [if_pos hopens] at h ⊢
    cases h
    -- what opens a stream does not drop one
    rw [hexclusive hopens, if_neg Bool.false_ne_true]
    omega
  · rw [if_neg hopens] at h ⊢
    by_cases hreleases : releases counter e = true
    · rw [if_pos hreleases] at h ⊢
      split at h
      · cases h
      · cases h
        omega
    · rw [if_neg hreleases] at h ⊢
      cases h
      rfl

/-- Streams that are alive besides do not matter. -/
theorem alive_add {counter n m : Nat} {e : Event} (h : e.alive counter n = some m) (k : Nat) :
    e.alive counter (n + k) = some (m + k) := by
  unfold alive at h ⊢
  by_cases hopens : opens counter e = true
  · rw [if_pos hopens] at h ⊢
    cases h
    rw [Nat.add_right_comm]
  · rw [if_neg hopens] at h ⊢
    by_cases hreleases : releases counter e = true
    · rw [if_pos hreleases] at h ⊢
      split at h
      · cases h
      · cases h
        rw [if_neg (by omega), Option.some.injEq]
        omega
    · rw [if_neg hreleases] at h ⊢
      cases h
      rfl

/-- How many streams of a counter are alive after some events. -/
def aliveAfter (counter : Nat) (n : Nat) (events : List Event) : Option Nat :=
  events.foldlM (fun n e => e.alive counter n) n

theorem aliveAfter_append (counter n : Nat) (l m : List Event) :
    aliveAfter counter n (l ++ m) = (aliveAfter counter n l).bind (aliveAfter counter · m) :=
  List.foldlM_append

theorem aliveAfter_cons (counter n : Nat) (e : Event) (events : List Event) :
    aliveAfter counter n (e :: events) = (e.alive counter n).bind (aliveAfter counter · events) :=
  List.foldlM_cons

theorem openedBy_aliveAfter {counter n m : Nat} {events : List Event}
    (h : aliveAfter counter n events = some m) :
    openedBy events counter + n = droppedBy events counter + m := by
  induction events generalizing n with
  | nil =>
      cases h
      rfl
  | cons e rest ih =>
      rw [aliveAfter_cons] at h
      obtain ⟨between, he, hrest⟩ := Option.bind_eq_some_iff.mp h
      have hfirst := openedBy_alive he
      have hrest := ih hrest
      have hopened :
          openedBy (e :: rest) counter = openedBy [e] counter + openedBy rest counter := by
        show openedBy ([e] ++ rest) counter = _
        exact List.countP_append
      have hdropped :
          droppedBy (e :: rest) counter = droppedBy [e] counter + droppedBy rest counter := by
        show droppedBy ([e] ++ rest) counter = _
        exact List.countP_append
      omega

theorem aliveAfter_add {counter n m : Nat} {events : List Event}
    (h : aliveAfter counter n events = some m) (k : Nat) :
    aliveAfter counter (n + k) events = some (m + k) := by
  induction events generalizing n with
  | nil =>
      cases h
      rfl
  | cons e rest ih =>
      rw [aliveAfter_cons] at h ⊢
      obtain ⟨between, he, hrest⟩ := Option.bind_eq_some_iff.mp h
      rw [alive_add he, Option.bind_some]
      exact ih hrest

end Event

open Event (alive aliveAfter)

/-! ## Accounts -/

/-- The events take the streams that are held at first, each given by its counter, to those that are
held afterwards. -/
def Balances (events : List Event) (before after : List Nat) : Prop :=
  ∀ counter, aliveAfter counter (before.count counter) events = some (after.count counter)

namespace Balances

variable {events more : List Event} {before between after : List Nat}

theorem append (h : Balances events before between) (h' : Balances more between after) :
    Balances (events ++ more) before after := by
  intro counter
  rw [Event.aliveAfter_append, h counter]
  exact h' counter

/-- The order in which streams are held does not matter. -/
theorem perm {before' after' : List Nat} (h : Balances events before after)
    (hbefore : before.Perm before') (hafter : after.Perm after') :
    Balances events before' after' := by
  intro counter
  rw [← hbefore.count_eq, ← hafter.count_eq]
  exact h counter

/-- Streams that are held besides do not matter. -/
theorem frame_right (h : Balances events before after) (held : List Nat) :
    Balances events (before ++ held) (after ++ held) := by
  intro counter
  rw [List.count_append, List.count_append]
  exact Event.aliveAfter_add (h counter) _

theorem frame_left (h : Balances events before after) (held : List Nat) :
    Balances events (held ++ before) (held ++ after) :=
  (h.frame_right held).perm List.perm_append_comm List.perm_append_comm

/-- Events that concern no counter leave everything as it is. -/
theorem quiet (h : ∀ e ∈ events, e.isQuiet = true) (held : List Nat) :
    Balances events held held := by
  intro counter
  induction events with
  | nil => rfl
  | cons e rest ih =>
      rw [Event.aliveAfter_cons, Event.alive_of_isQuiet (h e List.mem_cons_self)]
      exact ih (fun e' he' => h e' (List.mem_cons_of_mem _ he'))

/-- A stream is opened. -/
theorem opened {q : Query} {counter : Nat} (h : q.counter? = some counter) (held : List Nat) :
    Balances [.opened q] held (counter :: held) := by
  intro c
  rw [List.count_cons]
  show Option.bind (if q.counter? == some c then _ else _) _ = _
  rw [h, Option.some_beq_some]
  by_cases hc : (counter == c) = true
  · rw [if_pos hc, if_pos hc]
    rfl
  · rw [if_neg hc, if_neg hc]
    rfl

/-- A stream is dropped. -/
theorem released (counter : Nat) (held : List Nat) :
    Balances [.released counter] (counter :: held) held := by
  intro c
  rw [List.count_cons]
  show Option.bind (if counter == c then _ else _) _ = _
  by_cases hc : (counter == c) = true
  · rw [if_pos hc, if_pos hc]
    rfl
  · rw [if_neg hc, if_neg hc]
    rfl

/-- All streams that are held are dropped. -/
theorem release (held : List Nat) : Balances (held.map .released) held [] := by
  induction held with
  | nil => exact fun _ => rfl
  | cons counter rest ih => exact (released counter rest).append ih

/-- What was held and what was opened is what was dropped and what is held. -/
theorem openedBy_add (h : Balances events before after) (counter : Nat) :
    openedBy events counter + before.count counter
      = droppedBy events counter + after.count counter :=
  Event.openedBy_aliveAfter (h counter)

theorem openedBy_eq (h : Balances events [] after) (counter : Nat) :
    openedBy events counter = droppedBy events counter + after.count counter :=
  h.openedBy_add counter

/-- At no moment on the way more has been dropped than was opened. -/
theorem droppedBy_le (h : Balances events [] after) {first : List Event} (hfirst : first <+: events)
    (counter : Nat) : droppedBy first counter ≤ openedBy first counter := by
  -- the account goes on after the first events, so it has not failed there
  obtain ⟨rest, rfl⟩ := hfirst
  have hcounter := h counter
  rw [Event.aliveAfter_append] at hcounter
  obtain ⟨n, hn, -⟩ := Option.bind_eq_some_iff.mp hcounter
  have hopened := Event.openedBy_aliveAfter hn
  rw [List.count_nil] at hopened
  omega

end Balances

/-! ## Rounds -/

/-- Opening a stream of a query opens the counting streams that it holds from then on. -/
theorem Query.balances_openEvents (q : Query) : Balances q.openEvents [] q.stream.counters := by
  induction q with
  | counting counter input ih =>
      exact (Balances.opened (q := .counting counter input) rfl []).append (ih.frame_left [counter])
  -- the stream is that of the input, and so is the counter that is told of it
  | absorbing name supported refusal input ih => exact ih
  | declining supported input ih => exact ih
  | script name items observes =>
      cases observes
      · exact .quiet (fun e he => by rw [List.mem_singleton.mp he]; rfl) []
      · exact .quiet (fun e he => by rw [List.mem_singleton.mp he]; rfl) []
  | _ => exact .quiet (fun e he => by rw [List.mem_singleton.mp he]; rfl) []

namespace Stream

variable {r : Round Stream} {held : List Nat}

/-- Where a stream closes, what its input still holds is dropped. -/
theorem balances_close (h : Balances r.events held r.next.counters) (answer : Answer) :
    Balances (close r answer).events held (close r answer).next.counters :=
  h.append (.release _)

theorem balances_filterNext (h : Balances r.events held r.next.counters) (c : CompiledExpr) :
    Balances (filterNext c r).events held (filterNext c r).next.counters := by
  rcases filterNext_cases c r with ⟨a, -, hr⟩ | ⟨answer, -, hr⟩
  · rw [hr]
    exact balances_close h a
  · rw [hr]
    exact h

theorem balances_projectNext (h : Balances r.events held r.next.counters) (c : CompiledExpr) :
    Balances (projectNext c r).events held (projectNext c r).next.counters := by
  rcases projectNext_cases c r with ⟨a, -, hr⟩ | ⟨answer, -, hr⟩
  · rw [hr]
    exact balances_close h a
  · rw [hr]
    exact h

theorem balances_joinOuterNext (h : Balances r.events held r.next.counters) (inner : Query)
    (c d : CompiledExpr) :
    Balances (joinOuterNext inner c d r).events held (joinOuterNext inner c d r).next.counters := by
  rcases joinOuterNext_cases inner c d r with ⟨a, -, hr⟩ | ⟨answer, -, hr⟩ | ⟨row, hr⟩
  · rw [hr]
    exact balances_close h a
  · rw [hr]
    exact h
  · -- the inner stream is held besides the outer one
    have hopen := inner.balances_openEvents.frame_left r.next.counters
    rw [List.append_nil] at hopen
    rw [hr]
    exact h.append hopen

/-- The outer stream is held all the while; where the join closes, it is dropped after the inner
one. -/
theorem balances_joinInnerNext (h : Balances r.events held r.next.counters) (inner : Query)
    (c d : CompiledExpr) (outer : Stream) (row : Value) :
    Balances (joinInnerNext inner c d outer row r).events (outer.counters ++ held)
      (joinInnerNext inner c d outer row r).next.counters := by
  have hround : Balances r.events (outer.counters ++ held) (outer.counters ++ r.next.counters) :=
    h.frame_left outer.counters
  have hinner : Balances (r.events ++ r.next.release) (outer.counters ++ held) outer.counters := by
    have hrelease := (Balances.release r.next.counters).frame_left outer.counters
    rw [List.append_nil] at hrelease
    exact hround.append hrelease
  rcases joinInnerNext_cases inner c d outer row r with ⟨a, -, hr⟩ | ⟨answer, -, hr⟩ | hr
  · rw [hr]
    exact hinner.append (.release outer.counters)
  · rw [hr]
    exact hround
  · rw [hr]
    exact hinner

theorem balances_around {inner : Stream} (token : Bool)
    (h : Balances r.events inner.counters r.next.counters) :
    Balances ((Cancellable.around release token inner (fun _ => r)).map adapter).events
      inner.counters
      ((Cancellable.around release token inner (fun _ => r)).map adapter).next.counters := by
  cases token with
  | true => exact .release inner.counters
  | false =>
      obtain ⟨answer, next, events⟩ := r
      rcases answer with _ | v | e | _ | _
      · exact h
      · exact h
      · exact h
      · exact h
      · exact h.append (.release next.counters)

/-- To poll a leaf concerns no counter. -/
theorem isQuiet_of_mem_polled (leaf : Leaf) : ∀ e ∈ [Event.polled leaf], e.isQuiet = true := by
  intro e he
  rw [List.mem_singleton.mp he]
  rfl

/-- Nor does compiling. -/
theorem isQuiet_of_mem_compiled {events : List Event}
    (h : ∀ e ∈ events, ∃ cell, e = .compiled cell) : ∀ e ∈ events, e.isQuiet = true := by
  intro e he
  obtain ⟨cell, rfl⟩ := h e he
  rfl

/-- The input of an operator is opened when its expressions have been compiled. -/
theorem balances_open {events : List Event} (h : ∀ e ∈ events, ∃ cell, e = .compiled cell)
    (q : Query) : Balances (events ++ q.openEvents) [] q.stream.counters :=
  (Balances.quiet (isQuiet_of_mem_compiled h) []).append q.balances_openEvents

/-- A stream that is cancelled drops what it holds. -/
theorem balances_unlessCancelled (token : Bool) {dropped : List Event} {r : Round Stream}
    (hdropped : Balances dropped held []) (h : Balances r.events held r.next.counters) :
    Balances (if token then ⟨some .finished, .closed, dropped⟩ else r : Round Stream).events held
      (if token then ⟨some .finished, .closed, dropped⟩ else r : Round Stream).next.counters := by
  cases token with
  | true => exact hdropped
  | false => exact h

/-- Nor does it to give a connection a command. -/
theorem isQuiet_of_mem_issued (connection : String) (command : IssuedCommand) :
    ∀ e ∈ [Event.requested connection, .executed connection command], e.isQuiet = true := by
  intro e he
  simp only [List.mem_cons, List.not_mem_nil, or_false] at he
  rcases he with rfl | rfl <;> rfl

theorem balances_sqlStart (setting : Setting) (q : SqlQuery) :
    Balances (sqlStart setting q).events [] (sqlStart setting q).next.counters := by
  unfold sqlStart
  cases q.command with
  | error e => exact .release []
  | ok command =>
      dsimp only
      split
      · refine .quiet ?_ []
        intro e he
        rw [List.mem_singleton.mp he]
        rfl
      · exact .quiet (isQuiet_of_mem_issued _ _) []

theorem balances_sqlNext (columns : List String) (connection : String) (rest : List (Item Row)) :
    Balances (sqlNext columns connection rest).events []
      (sqlNext columns connection rest).next.counters := by
  have hpolled := isQuiet_of_mem_polled (.reader connection)
  rcases sqlNext_cases columns connection rest with ⟨a, -, hr⟩ | ⟨a, more, -, hr⟩
  · rw [hr]
    exact .quiet hpolled []
  · rw [hr]
    exact .quiet hpolled []

/-- **Every round accounts for the counting streams that are opened and dropped in it.** -/
theorem balances_step (setting : Setting) (token : Bool) (s : Stream) :
    Balances (step setting token s).events s.counters (step setting token s).next.counters := by
  induction s with
  | values rest => cases rest <;> exact .quiet (isQuiet_of_mem_polled .values) []
  | script name rest =>
      rcases rest with _ | ⟨_ | _ | _, rest⟩ <;>
        exact .quiet (isQuiet_of_mem_polled (.script name)) []
  | stalled => exact .quiet (isQuiet_of_mem_polled .stalled) []
  | failing e => cases e <;> exact .quiet (isQuiet_of_mem_polled .failing) []
  | counting counter inner ih => exact ih.frame_left [counter]
  | cancellable inner ih => exact balances_around token ih
  | filterIdle input p =>
      cases token with
      -- before its first round an operator holds nothing
      | true => exact .release []
      | false =>
          obtain ⟨events, hcompiled, ⟨err, h⟩ | ⟨c, h⟩⟩ := step_filterIdle setting input p
          · rw [h]
            exact .quiet (isQuiet_of_mem_compiled hcompiled) []
          · rw [h]
            exact balances_open hcompiled input
  | filterOpen c input ih =>
      exact balances_unlessCancelled token (.release input.counters) (balances_filterNext ih c)
  | projectIdle input e =>
      cases token with
      | true => exact .release []
      | false =>
          obtain ⟨events, hcompiled, ⟨err, h⟩ | ⟨c, h⟩⟩ := step_projectIdle setting input e
          · rw [h]
            exact .quiet (isQuiet_of_mem_compiled hcompiled) []
          · rw [h]
            exact balances_open hcompiled input
  | projectOpen c input ih =>
      exact balances_unlessCancelled token (.release input.counters) (balances_projectNext ih c)
  | joinIdle outer inner condition combine =>
      cases token with
      | true => exact .release []
      | false =>
          obtain ⟨events, hcompiled, ⟨err, h⟩ | ⟨c, d, h⟩⟩ :=
            step_joinIdle setting outer inner condition combine
          · rw [h]
            exact .quiet (isQuiet_of_mem_compiled hcompiled) []
          · rw [h]
            exact balances_open hcompiled outer
  | joinOuter inner c d outer ih =>
      exact balances_unlessCancelled token (.release outer.counters)
        (balances_joinOuterNext ih inner c d)
  | joinInner inner c d outer row current ihOuter ihCurrent =>
      -- cancelled, the join drops both of its streams at once
      refine balances_unlessCancelled token ?_
        (balances_joinInnerNext ihCurrent inner c d outer row)
      show Balances (outer.counters.map .released ++ current.counters.map .released) _ _
      rw [← List.map_append]
      exact .release (outer.counters ++ current.counters)
  | sqlIdle q => exact balances_sqlStart setting q
  | sqlExecuting columns connection delay reply =>
      cases delay with
      | succ delay => exact .release []
      | zero => cases reply <;> exact .release []
  | sqlReading columns connection rest => exact balances_sqlNext columns connection rest
  | closed => exact .release []

end Stream

end RowQuery
