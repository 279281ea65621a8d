import RowQuery.Proofs.Surroundings

set_option autoImplicit false

/-! # Cancellation

The token of a stream may be cancelled between any two polls, also before the first one. A stream
that looks at its token (`Stream.heedsToken`) then drops everything that it holds and closes, and
this is all that happens: in a round after the cancellation each of its states does the same
(`Stream.step_cancelled`), whether it is idle, waits for an input or a connection, goes through
inner elements, or has failed. What lies beneath need not cooperate. An input that never answers or
disregards the token is dropped with everything else.

A stream answers up to the cancellation what it answers in a run that is never cancelled, in all
surroundings in which connections answer the same.
-/

namespace RowQuery

/-- An occasion after the cancellation. -/
def Occasion.late (setting : Setting) : Occasion := ⟨setting, true⟩

/-- Whether streams of the query look at their token: those of values in memory, of tables, and of
operators that are carried out here. -/
def Query.heedsToken : Query → Bool
  | .values _ => true
  | .sql _ => true
  | .localFilter .. => true
  | .localProject .. => true
  | .localJoin .. => true
  | _ => false

namespace Stream

/-! ## Streams that look at their token -/

/-- Whether a stream has closed, or looks at its token before anything else. -/
def heedsToken : Stream → Bool
  | .closed => true
  | .cancellable _ => true
  | s => s.isLocal

theorem heedsToken_stream {q : Query} (h : q.heedsToken = true) : q.stream.heedsToken = true := by
  cases q with
  | values rows => rfl
  | sql q => rfl
  | localFilter input p => rfl
  | localProject input e => rfl
  | localJoin outer inner condition combine => rfl
  | _ => cases h

theorem heedsToken_of_isLocal {s : Stream} (h : s.isLocal = true) : s.heedsToken = true := by
  cases s with
  | closed => rfl
  | cancellable inner => rfl
  | _ => exact h

/-- A stream looks at its token as long as it is polled. -/
theorem heedsToken_step (setting : Setting) (token : Bool) (s : Stream) (h : s.heedsToken = true) :
    (step setting token s).next.heedsToken = true := by
  have hlocal : s.isLocal = true → (step setting token s).next.heedsToken = true := by
    intro hs
    have hstep := closesWithLast_step setting token hs
    unfold closesWithLast at hstep
    split at hstep
    · rw [hstep]
      rfl
    · exact heedsToken_of_isLocal hstep
  cases s with
  | closed => rfl
  | cancellable inner =>
      show (adapter _).heedsToken = true
      cases (Cancellable.around release token inner _).next <;> rfl
  | _ => exact hlocal h

/-! ## After the cancellation -/

/-- **In every state, a round after the cancellation drops what the stream holds and nothing else.**
-/
theorem step_cancelled (setting : Setting) {s : Stream} (h : s.heedsToken = true) :
    step setting true s = cancelled s := by
  cases s with
  | joinInner inner c d outer row current =>
      show (⟨_, _, outer.release ++ current.release⟩ : Round Stream) = ⟨_, _, _⟩
      rw [release, release, ← List.map_append]
      rfl
  | _ => first | rfl | cases h

theorem poll_cancelled (setting : Setting) {s : Stream} (h : s.heedsToken = true) :
    poll setting true s = ⟨.finished, .closed, s.release⟩ :=
  poll_of_step_some (step_cancelled setting h)

/-- All polls after the cancellation answer that the stream has ended. The first of them drops what
the stream holds, and nothing happens in the others. -/
theorem pollAll_late (settings : List Setting) {s : Stream} (h : s.heedsToken = true) :
    (s.pollAll (settings.map .late)).answers = List.replicate settings.length .finished ∧
      ∀ e ∈ (s.pollAll (settings.map .late)).events, ∃ counter, e = .released counter := by
  cases settings with
  | nil =>
      refine ⟨rfl, ?_⟩
      intro e he
      cases he
  | cons setting rest =>
      have hpolls : s.pollAll ((setting :: rest).map .late)
          = ⟨.finished :: List.replicate (rest.map Occasion.late).length .finished, .closed,
              s.release ++ []⟩ := by
        rw [List.map_cons, pollAll]
        show Polls.mk _ _ _ = _
        rw [Occasion.late, poll_cancelled setting h, pollAll_closed]
      rw [hpolls, List.length_map, List.append_nil]
      refine ⟨rfl, ?_⟩
      intro e he
      obtain ⟨counter, -, rfl⟩ := List.mem_map.mp he
      exact ⟨counter, rfl⟩

/-! ## Before the cancellation -/

/-- A schedule may be cut in two. -/
theorem pollAll_append (first second : List Occasion) (s : Stream) :
    s.pollAll (first ++ second) =
      ⟨(s.pollAll first).answers ++ ((s.pollAll first).next.pollAll second).answers,
        ((s.pollAll first).next.pollAll second).next,
        (s.pollAll first).events ++ ((s.pollAll first).next.pollAll second).events⟩ := by
  induction first generalizing s with
  | nil => rfl
  | cons o rest ih =>
      rw [List.cons_append, pollAll, pollAll, ih]
      dsimp only
      rw [List.cons_append, List.append_assoc]

theorem length_answers_pollAll (occasions : List Occasion) (s : Stream) :
    (s.pollAll occasions).answers.length = occasions.length := by
  induction occasions generalizing s with
  | nil => rfl
  | cons o rest ih => exact congrArg Nat.succ (ih _)

/-- The answers to the first polls do not depend on what comes after them. -/
theorem take_answers_pollAll (first second : List Occasion) (s : Stream) :
    (s.pollAll (first ++ second)).answers.take first.length = (s.pollAll first).answers := by
  rw [pollAll_append, ← length_answers_pollAll first s, List.take_left]

end Stream

/-! ## Cancellation of an enumeration -/

/-- **Cancellation ends a stream at once and for good, and does not reach back.** The token is
cancelled behind the polls that find the surroundings `before`. These polls are answered as they are
in any run that is never cancelled and in which every poll finds connections that answer the same;
all others are answered with the end. What happens before the cancellation is what the polls before
it do, and afterwards nothing happens but that streams are dropped: no query is opened, no leaf
polled, no expression compiled and no command asked for or executed. -/
theorem Query.cancelled_for_good (q : Query) (hq : q.heedsToken = true)
    (before after uncancelled : List Setting)
    (hsame : (before ++ after).map Setting.behavior = uncancelled.map Setting.behavior) :
    (q.stream.pollAll (before.map .live ++ after.map .late)).answers
        = (q.stream.pollAll (uncancelled.map .live)).answers.take before.length
          ++ List.replicate after.length .finished ∧
      ∃ dropped : List Event,
        (q.stream.pollAll (before.map .live ++ after.map .late)).events
          = (q.stream.pollAll (before.map .live)).events ++ dropped ∧
        ∀ e ∈ dropped, ∃ counter, e = .released counter := by
  have hheeds : (q.stream.pollAll (before.map .live)).next.heedsToken = true :=
    Stream.pollAll_keeps (P := fun s => s.heedsToken = true)
      (fun g t s h => Stream.heedsToken_step g t s h) _ _ (Stream.heedsToken_stream hq)
  obtain ⟨hfinished, hdropped⟩ := Stream.pollAll_late after hheeds
  -- the run that is never cancelled begins like the one that is
  have hbegin : (q.stream.pollAll (uncancelled.map .live)).answers.take before.length
      = (q.stream.pollAll (before.map .live)).answers := by
    have hseen : ((before ++ after).map Occasion.live).map Occasion.seen
        = (uncancelled.map Occasion.live).map Occasion.seen := by
      have hlive : ∀ settings : List Setting, (settings.map Occasion.live).map Occasion.seen
          = (settings.map Setting.behavior).map (·, false) := by
        intro settings
        rw [List.map_map, List.map_map]
        rfl
      rw [hlive, hlive, hsame]
    rw [← (Stream.pollAll_alike hseen q.stream).1, List.map_append]
    have htake := Stream.take_answers_pollAll (before.map .live) (after.map .live) q.stream
    rwa [List.length_map] at htake
  rw [Stream.pollAll_append]
  refine ⟨?_, _, rfl, hdropped⟩
  rw [hbegin]
  exact congrArg _ hfinished

/-- Nothing has been compiled, and every connection answers without rows. -/
def Setting.initial : Setting := ⟨fun _ => .empty, .empty⟩

/-- A join whose inner source neither answers nor looks at its token. -/
def Query.stuck : Query :=
  .localJoin (.values [.int64 1, .int64 2]) .stalled (.constant (.boolean true)) (.argument 0)

/-- The join waits for its inner source until the token is cancelled, and ends with the next poll.
-/
theorem Query.cancelled_for_good_stuck :
    Query.stuck.heedsToken = true ∧
      (List.replicate 2 Setting.initial ++ List.replicate 2 Setting.initial).map Setting.behavior
        = (List.replicate 4 Setting.initial).map Setting.behavior ∧
      (Query.stuck.stream.pollAll
          ((List.replicate 2 .initial).map .live ++ (List.replicate 2 .initial).map .late)).answers
        = [.pending, .pending, .finished, .finished] := by
  have h := Query.cancelled_for_good Query.stuck rfl (List.replicate 2 .initial)
    (List.replicate 2 .initial) (List.replicate 4 .initial) rfl
  refine ⟨rfl, rfl, ?_⟩
  rw [h.1]
  decide +kernel

end RowQuery
