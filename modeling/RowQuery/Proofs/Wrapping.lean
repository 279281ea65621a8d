import RowQuery.Proofs.Cancellation
import RowQuery.Proofs.Nesting

set_option autoImplicit false

/-! # Wrapping

The adapter that observes the token is put around streams without asking whether they have one
already: a source in memory comes with it, an operator puts one around each of its inputs, and a
table brings its own. That this is harmless is shown here for a stream of which nothing is known but
what can be seen from outside (`Cancellable.Watched`). It answers as it likes, an element after the
end if it wants to, and each of its polls and its being dropped are on record. `Layers` of the
adapter around it report the same as one layer, under every schedule.

The streams of queries take rounds to come to an answer and report events of their own, and the
token reaches inside them. For them the same is said of polls (`Stream.poll_wrapped`).
-/

namespace RowQuery

namespace Cancellable

/-! ## A stream seen from outside -/

/-- A stream whose every poll is on record under `leaf`, and its being dropped under `counter`. What
it answers may depend on what the poll sees in any way. -/
structure Watched (ε σ : Type) where
  leaf : Leaf
  counter : Nat
  poll : ε → σ → Answer × σ

/-- A poll of the outermost layer: what it sees, and whether it comes after the cancellation. -/
structure Visit (ε : Type) where
  sees : ε
  cancelled : Bool

/-- A visit before the cancellation. -/
def Visit.live {ε : Type} (sees : ε) : Visit ε := ⟨sees, false⟩

/-- What is to be seen of a round. -/
structure Report where
  answer : Option Answer
  events : List Event

/-- The end as an answer, and what has happened. -/
def Report.ended (events : List Event) : Report := ⟨some .finished, events⟩

/-- So many layers of the adapter around a state. A layer holds what is inside until it drops it. -/
@[reducible] def Layers (σ : Type) : Nat → Type
  | 0 => σ
  | k + 1 => Option (Layers σ k)

/-- A state with so many new layers around it. -/
def wrap {σ : Type} (s : σ) : (k : Nat) → Layers σ k
  | 0 => s
  | k + 1 => some (wrap s k)

/-- A round of the adapter around a stream that has answered. -/
theorem around_answered {σ : Type} (release : σ → List Event) (token : Bool) (inner next : σ)
    (a : Answer) (events : List Event) :
    around release token inner (fun _ => ⟨some a, next, events⟩)
      = if token then ⟨some .finished, none, release inner⟩
        else if a = .finished then ⟨some .finished, none, events ++ release next⟩
        else ⟨some a, some next, events⟩ := by
  cases token with
  | true => rfl
  | false => cases a <;> rfl

namespace Watched

variable {ε σ : Type} (m : Watched ε σ)

/-- What happens when the layers are dropped: the stream is, if it is still there. -/
def releaseOf : (k : Nat) → Layers σ k → List Event
  | 0, _ => [.released m.counter]
  | _ + 1, none => []
  | k + 1, some inner => releaseOf k inner

/-- A round of the layers, each of which looks at the same token. -/
def roundOf (v : Visit ε) : (k : Nat) → Layers σ k → Round (Layers σ k)
  | 0, s => ⟨some (m.poll v.sees s).1, (m.poll v.sees s).2, [.polled m.leaf]⟩
  | k + 1, s => Cancellable.round (m.releaseOf k) (roundOf v k) v.cancelled s

/-- What is to be seen of the layers under a schedule of visits. -/
def reports (k : Nat) : List (Visit ε) → Layers σ k → List Report
  | [], _ => []
  | v :: rest, s =>
    ⟨(m.roundOf v k s).answer, (m.roundOf v k s).events⟩ :: reports k rest (m.roundOf v k s).next

/-- What is to be seen of the stream when it is polled itself, once for each visit. -/
def direct : List ε → σ → List Report
  | [], _ => []
  | e :: rest, s => ⟨some (m.poll e s).1, [.polled m.leaf]⟩ :: direct rest (m.poll e s).2

/-- The state of the stream after it has been polled itself. -/
def stateAfter (seen : List ε) (s : σ) : σ := seen.foldl (fun s e => (m.poll e s).2) s

/-! ## Layers -/

/-- However many layers are dropped, the stream is dropped once. -/
theorem releaseOf_wrap (s : σ) (k : Nat) : m.releaseOf k (wrap s k) = [.released m.counter] := by
  induction k with
  | zero => rfl
  | succ k ih => exact ih

/-- **A round of any number of layers is a round of one layer.** -/
theorem roundOf_wrap (v : Visit ε) (s : σ) (k : Nat) :
    m.roundOf v (k + 1) (wrap s (k + 1))
      = if v.cancelled then ⟨some .finished, none, [.released m.counter]⟩
        else if (m.poll v.sees s).1 = .finished then
          ⟨some .finished, none, [.polled m.leaf, .released m.counter]⟩
        else
          ⟨some (m.poll v.sees s).1, wrap (m.poll v.sees s).2 (k + 1), [.polled m.leaf]⟩ := by
  show around (m.releaseOf k) v.cancelled (wrap s k) (fun _ => m.roundOf v k (wrap s k)) = _
  induction k with
  | zero => exact around_answered (m.releaseOf 0) v.cancelled s (m.poll v.sees s).2 _ _
  | succ k ih =>
      have hround : m.roundOf v (k + 1) (wrap s (k + 1)) = _ := ih
      rw [hround]
      by_cases hcancelled : v.cancelled = true
      · rw [if_pos hcancelled, if_pos hcancelled, around_answered, if_pos hcancelled,
          releaseOf_wrap]
      · rw [if_neg hcancelled, if_neg hcancelled]
        by_cases hend : (m.poll v.sees s).1 = .finished
        · -- the layer inside has dropped the stream already
          rw [if_pos hend, if_pos hend, around_answered, if_neg hcancelled, if_pos rfl]
          rfl
        · rw [if_neg hend, if_neg hend, around_answered, if_neg hcancelled, if_neg hend]
          rfl

/-- Layers that have dropped the stream only answer that it has ended. -/
theorem reports_none (visits : List (Visit ε)) (k : Nat) :
    m.reports (k + 1) visits none = List.replicate visits.length (.ended []) := by
  induction visits with
  | nil => rfl
  | cons v rest ih => exact congrArg (List.cons (Report.ended [])) ih

/-- A visit that finds the token cancelled drops the stream. -/
theorem reports_of_cancelled {v : Visit ε} (h : v.cancelled = true) (rest : List (Visit ε)) (s : σ)
    (k : Nat) :
    m.reports (k + 1) (v :: rest) (wrap s (k + 1))
      = .ended [.released m.counter] :: List.replicate rest.length (.ended []) := by
  rw [reports, roundOf_wrap, if_pos h, reports_none]
  rfl

/-- So does the end. -/
theorem reports_of_finished {v : Visit ε} (h : v.cancelled = false) {s : σ}
    (hend : (m.poll v.sees s).1 = .finished) (rest : List (Visit ε)) (k : Nat) :
    m.reports (k + 1) (v :: rest) (wrap s (k + 1))
      = .ended [.polled m.leaf, .released m.counter]
          :: List.replicate rest.length (.ended []) := by
  rw [reports, roundOf_wrap, h, if_neg Bool.false_ne_true, if_pos hend, reports_none]
  rfl

/-- Any other visit polls it, once. -/
theorem reports_of_live {v : Visit ε} (h : v.cancelled = false) {s : σ}
    (hend : (m.poll v.sees s).1 ≠ .finished) (rest : List (Visit ε)) (k : Nat) :
    m.reports (k + 1) (v :: rest) (wrap s (k + 1))
      = ⟨some (m.poll v.sees s).1, [.polled m.leaf]⟩
          :: m.reports (k + 1) rest (wrap (m.poll v.sees s).2 (k + 1)) := by
  rw [reports, roundOf_wrap, h, if_neg Bool.false_ne_true, if_neg hend]

/-- What is to be seen does not depend on the number of layers. -/
theorem reports_wrap (visits : List (Visit ε)) (s : σ) (j k : Nat) :
    m.reports (j + 1) visits (wrap s (j + 1)) = m.reports (k + 1) visits (wrap s (k + 1)) := by
  induction visits generalizing s with
  | nil => rfl
  | cons v rest ih =>
      cases hcancelled : v.cancelled with
      | true => rw [reports_of_cancelled m hcancelled, reports_of_cancelled m hcancelled]
      | false =>
          by_cases hend : (m.poll v.sees s).1 = .finished
          · rw [reports_of_finished m hcancelled hend, reports_of_finished m hcancelled hend]
          · rw [reports_of_live m hcancelled hend, reports_of_live m hcancelled hend, ih]

/-- Visits that come before the cancellation and do not find the end are polls of the stream itself;
those after them find it as these have left it. -/
theorem reports_append {live : List ε} {s : σ}
    (h : ∀ r ∈ m.direct live s, r.answer ≠ some .finished) (later : List (Visit ε)) (k : Nat) :
    m.reports (k + 1) (live.map .live ++ later) (wrap s (k + 1))
      = m.direct live s ++ m.reports (k + 1) later (wrap (m.stateAfter live s) (k + 1)) := by
  induction live generalizing s with
  | nil => rfl
  | cons e rest ih =>
      rw [direct, List.forall_mem_cons] at h
      have hend : (m.poll e s).1 ≠ .finished := fun hend => h.1 (congrArg some hend)
      rw [List.map_cons, List.cons_append, reports_of_live m (v := .live e) rfl hend]
      show _ :: m.reports _ _ (wrap (m.poll e s).2 _) = _
      rw [ih h.2]
      rfl

end Watched

end Cancellable

/-! ## Streams of queries -/

namespace Stream

/-- A stream with so many adapters around it. -/
def wrapped (s : Stream) : Nat → Stream
  | 0 => s
  | k + 1 => .cancellable (wrapped s k)

/-- However many adapters are dropped, what the stream holds is dropped once. -/
theorem release_wrapped (s : Stream) (k : Nat) : (s.wrapped k).release = s.release := by
  induction k with
  | zero => rfl
  | succ k ih => exact ih

/-- **A poll of any number of adapters is a poll of one adapter.** -/
theorem poll_wrapped (setting : Setting) (token : Bool) (s : Stream) (k : Nat) :
    poll setting token (s.wrapped (k + 1))
      = if token then ⟨.finished, .closed, s.release⟩
        else if (poll setting false s).answer = .finished then
          ⟨.finished, .closed, (poll setting false s).events ++ (poll setting false s).next.release⟩
        else
          ⟨(poll setting false s).answer, (poll setting false s).next.wrapped (k + 1),
            (poll setting false s).events⟩ := by
  cases token with
  | true => exact (poll_cancelled setting rfl).trans (by rw [release_wrapped]; rfl)
  | false =>
      rw [if_neg Bool.false_ne_true]
      induction k with
      | zero => exact poll_cancellable setting s
      | succ k ih =>
          show poll setting false (.cancellable (s.wrapped (k + 1))) = _
          rw [poll_cancellable, ih]
          by_cases hend : (poll setting false s).answer = .finished
          · -- the adapter inside has closed, so there is nothing left to drop
            rw [if_pos hend, if_pos hend, if_pos rfl]
            exact congrArg (Polled.mk _ _) (List.append_nil _)
          · rw [if_neg hend, if_neg hend, if_neg hend]
            rfl

/-- What comes of the polls does not depend on the number of adapters. -/
theorem pollAll_wrapped (occasions : List Occasion) (s : Stream) (j k : Nat) :
    ((s.wrapped (j + 1)).pollAll occasions).answers
        = ((s.wrapped (k + 1)).pollAll occasions).answers ∧
      ((s.wrapped (j + 1)).pollAll occasions).events
        = ((s.wrapped (k + 1)).pollAll occasions).events := by
  induction occasions generalizing s with
  | nil => exact ⟨rfl, rfl⟩
  | cons o rest ih =>
      simp only [pollAll]
      rw [poll_wrapped, poll_wrapped]
      split
      · exact ⟨rfl, rfl⟩
      · split
        · exact ⟨rfl, rfl⟩
        · obtain ⟨hanswers, hevents⟩ := ih (poll o.setting false s).next
          exact ⟨congrArg _ hanswers, congrArg _ hevents⟩

/-- Before the cancellation and the end, an adapter does not show. -/
theorem pollAll_wrapped_live {settings : List Setting} {s : Stream}
    (h : Answer.finished ∉ (s.pollAll (settings.map .live)).answers) (k : Nat) :
    (s.wrapped k).pollAll (settings.map .live)
      = ⟨(s.pollAll (settings.map .live)).answers,
          (s.pollAll (settings.map .live)).next.wrapped k,
          (s.pollAll (settings.map .live)).events⟩ := by
  cases k with
  | zero => rfl
  | succ k =>
      induction settings generalizing s with
      | nil => rfl
      | cons g rest ih =>
          simp only [List.map_cons, pollAll, Occasion.live, List.mem_cons, not_or] at h ⊢
          have hend : (poll g false s).answer ≠ .finished := fun hend => h.1 hend.symm
          rw [poll_wrapped, if_neg Bool.false_ne_true, if_neg hend]
          dsimp only
          rw [ih h.2]

end Stream

open Cancellable (Watched Visit wrap)

/-- **The adapter does not show until it ends, and wrapping again changes nothing.** Let any stream
have any number of adapters around it, and be visited under any schedule of cancellations. What is
to be seen, answers, polls and the drop, is the same as with one adapter. As long as the token is
not cancelled and the stream has not answered with the end, every visit is one poll of the stream,
and its answer is passed on. The first visit after the cancellation drops the stream without polling
it; the first poll answered with the end is the last one, and the stream is dropped with it. All
later visits are answered with the end, and nothing happens in them. The same holds of the streams
of queries, with all that they do on their way to an answer. -/
theorem wrapping_again_changes_nothing {ε σ : Type} (m : Watched ε σ) (s : σ) (k : Nat) :
    (∀ visits : List (Visit ε),
      m.reports (k + 1) visits (wrap s (k + 1)) = m.reports 1 visits (wrap s 1)) ∧
    (∀ live : List ε, (∀ r ∈ m.direct live s, r.answer ≠ some .finished) →
      m.reports (k + 1) (live.map .live) (wrap s (k + 1)) = m.direct live s ∧
      ∀ (v : Visit ε) (later : List (Visit ε)),
        (v.cancelled = true →
          m.reports (k + 1) (live.map .live ++ v :: later) (wrap s (k + 1))
            = m.direct live s ++ .ended [.released m.counter]
                :: List.replicate later.length (.ended [])) ∧
        (v.cancelled = false → (m.poll v.sees (m.stateAfter live s)).1 = .finished →
          m.reports (k + 1) (live.map .live ++ v :: later) (wrap s (k + 1))
            = m.direct live s ++ .ended [.polled m.leaf, .released m.counter]
                :: List.replicate later.length (.ended []))) ∧
    (∀ (t : Stream) (occasions : List Occasion),
      ((t.wrapped (k + 1)).pollAll occasions).answers = ((t.wrapped 1).pollAll occasions).answers ∧
      ((t.wrapped (k + 1)).pollAll occasions).events = ((t.wrapped 1).pollAll occasions).events) ∧
    (∀ (t : Stream) (settings : List Setting),
      Answer.finished ∉ (t.pollAll (settings.map .live)).answers →
      ((t.wrapped (k + 1)).pollAll (settings.map .live)).answers
          = (t.pollAll (settings.map .live)).answers ∧
        ((t.wrapped (k + 1)).pollAll (settings.map .live)).events
          = (t.pollAll (settings.map .live)).events) := by
  refine ⟨fun visits => m.reports_wrap visits s k 0, ?_,
    fun t occasions => Stream.pollAll_wrapped occasions t k 0, ?_⟩
  · intro live hlive
    constructor
    · have hall := m.reports_append hlive [] k
      rwa [List.append_nil, Watched.reports, List.append_nil] at hall
    · intro v later
      constructor
      · intro hcancelled
        rw [m.reports_append hlive, m.reports_of_cancelled hcancelled]
      · intro hcancelled hend
        rw [m.reports_append hlive, m.reports_of_finished hcancelled hend]
  · intro t settings hfinished
    rw [Stream.pollAll_wrapped_live hfinished]
    exact ⟨rfl, rfl⟩

end RowQuery
