import RowQuery.Proofs.Schedule

set_option autoImplicit false

/-! # Polls inside polls

The rounds of a stream go down to its input: a round of a filter is made of a round of the stream
that it filters. Seen from the outside the two take turns. Seen from the filter there is nothing but
its own loop, in which it polls its input to an answer and decides what to make of it. Both come to
the same (`Stream.poll_nested`), for every stream that holds an input and leaves it alone until the
input has an answer (`Stream.Frames`).

What is said here of polls is what a caller of a stream can rely on without knowing that it has
rounds at all. -/

namespace RowQuery

/-- The surroundings after two lists of events are those after one behind the other. -/
theorem Setting.recordAll_append (s : Setting) (events more : List Event) :
    s.recordAll (events ++ more) = (s.recordAll events).recordAll more :=
  List.foldl_append

/-- The same round, with something that has happened before it. -/
def Round.after {σ : Type} (events : List Event) (r : Round σ) : Round σ :=
  ⟨r.answer, r.next, events ++ r.events⟩

namespace Stream

/-- A poll, seen as one round of the stream that polls. -/
def Polled.round (p : Polled) : Round Stream := ⟨some p.answer, p.next, p.events⟩

/-- The same poll, with something that has happened before it. -/
def Polled.after (events : List Event) (p : Polled) : Polled :=
  ⟨p.answer, p.next, events ++ p.events⟩

/-- What a poll comes to that has begun with this round. -/
def continued (setting : Setting) (token : Bool) (r : Round Stream) : Polled :=
  match r.answer with
  | some answer => ⟨answer, r.next, r.events⟩
  | none => (poll (setting.recordAll r.events) token r.next).after r.events

theorem poll_eq_continued (setting : Setting) (token : Bool) (s : Stream) :
    poll setting token s = continued setting token (step setting token s) := by
  rcases hs : step setting token s with ⟨_ | answer, next, events⟩
  · exact poll_of_step_none hs
  · exact poll_of_step_some hs

theorem continued_after (setting : Setting) (token : Bool) (events : List Event)
    (r : Round Stream) :
    continued setting token (r.after events)
      = (continued (setting.recordAll events) token r).after events := by
  obtain ⟨answer, next, more⟩ := r
  cases answer with
  | some answer => rfl
  | none =>
      show (poll (setting.recordAll (events ++ more)) token next).after (events ++ more) = _
      rw [Setting.recordAll_append, Polled.after, List.append_assoc]
      rfl

/-! ## Streams around an input -/

/-- The streams `hold input` go round with a stream inside them: a round of theirs is a round of the
input and what `next` makes of it, and as long as the input has no answer they only hold on to it.
-/
structure Frames (token : Bool) (hold : Stream → Stream) (next : Round Stream → Round Stream) :
    Prop where
  step_eq : ∀ setting input, step setting token (hold input) = next (step setting token input)
  waits : ∀ input events, next ⟨none, input, events⟩ = ⟨none, hold input, events⟩
  keeps : ∀ events r, next (r.after events) = (next r).after events

/-- **To go round with an input is to poll it to an answer and to go on from there.** -/
theorem poll_nested {token : Bool} {hold : Stream → Stream} {next : Round Stream → Round Stream}
    (h : Frames token hold next) (setting : Setting) (input : Stream) :
    poll setting token (hold input)
      = continued setting token (next (poll setting token input).round) := by
  rw [poll_eq_continued, h.step_eq]
  fun_induction poll setting token input with
  | case1 setting input answer after events hs =>
      rw [hs]
      rfl
  | case2 setting input after events hs rest ih =>
      -- both sides go on in the surroundings that this round has left behind
      calc continued setting token (next (step setting token input))
          = (poll (setting.recordAll events) token (hold after)).after events := by
            rw [hs, h.waits]
            rfl
        _ = (continued (setting.recordAll events) token (next rest.round)).after events := by
            rw [poll_eq_continued, h.step_eq, ih]
        _ = continued setting token (next (rest.round.after events)) := by
            rw [h.keeps, continued_after]

theorem frames_counting (token : Bool) (counter : Nat) :
    Frames token (.counting counter) (·.map (.counting counter)) :=
  ⟨fun _ _ => rfl, fun _ _ => rfl, fun _ _ => rfl⟩

/-- What is dropped when a stream closes comes after everything that has happened. -/
theorem close_after (events : List Event) (r : Round Stream) (answer : Answer) :
    close (r.after events) answer = (close r answer).after events := by
  rw [close, close, Round.after, Round.after, List.append_assoc]

theorem frames_cancellable :
    Frames false .cancellable
      (fun r => (Cancellable.around release false r.next (fun _ => r)).map adapter) where
  step_eq _ _ := rfl
  waits _ _ := rfl
  keeps events r := by
    obtain ⟨answer, next, more⟩ := r
    rcases answer with _ | v | e | _ | _
    · rfl
    · rfl
    · rfl
    · rfl
    · show (⟨_, _, events ++ more ++ next.release⟩ : Round Stream) = _
      rw [List.append_assoc]
      rfl

theorem frames_filterOpen (c : CompiledExpr) :
    Frames false (.filterOpen c) (filterNext c) where
  step_eq _ _ := rfl
  waits _ _ := rfl
  keeps events r := by
    obtain ⟨answer, next, more⟩ := r
    rcases answer with _ | v | e | _ | _
    · rfl
    · simp only [filterNext, Round.after]
      rcases c.evalPredicate [v] with err | _ | _
      · exact close_after events ⟨some (.row v), next, more⟩ _
      · rfl
      · rfl
    · exact close_after events ⟨some (.error e), next, more⟩ _
    · rfl
    · exact close_after events ⟨some .finished, next, more⟩ _

theorem frames_projectOpen (c : CompiledExpr) :
    Frames false (.projectOpen c) (projectNext c) where
  step_eq _ _ := rfl
  waits _ _ := rfl
  keeps events r := by
    obtain ⟨answer, next, more⟩ := r
    rcases answer with _ | v | e | _ | _
    · rfl
    · simp only [projectNext, Round.after]
      rcases c.eval [v] with err | w
      · exact close_after events ⟨some (.row v), next, more⟩ _
      · rfl
    · exact close_after events ⟨some (.error e), next, more⟩ _
    · rfl
    · exact close_after events ⟨some .finished, next, more⟩ _

theorem frames_joinOuter (inner : Query) (c d : CompiledExpr) :
    Frames false (.joinOuter inner c d) (joinOuterNext inner c d) where
  step_eq _ _ := rfl
  waits _ _ := rfl
  keeps events r := by
    obtain ⟨answer, next, more⟩ := r
    rcases answer with _ | v | e | _ | _
    · rfl
    · show (⟨_, _, events ++ more ++ inner.openEvents⟩ : Round Stream) = _
      rw [List.append_assoc]
      rfl
    · exact close_after events ⟨some (.error e), next, more⟩ _
    · rfl
    · exact close_after events ⟨some .finished, next, more⟩ _

theorem frames_joinInner (inner : Query) (c d : CompiledExpr) (outer : Stream) (row : Value) :
    Frames false (.joinInner inner c d outer row) (joinInnerNext inner c d outer row) where
  step_eq _ _ := rfl
  waits _ _ := rfl
  keeps events r := by
    obtain ⟨answer, next, more⟩ := r
    rcases answer with _ | v | e | _ | _
    · rfl
    · simp only [joinInnerNext, Round.after]
      rcases matched c d row v with err | _ | w
      · simp only [List.append_assoc]
      · rfl
      · rfl
    · simp only [joinInnerNext, Round.after, List.append_assoc]
    · rfl
    · simp only [joinInnerNext, Round.after, List.append_assoc]

/-- A poll of the adapter polls what is inside and passes its answer on, unless that is the end. -/
theorem poll_cancellable (setting : Setting) (input : Stream) :
    poll setting false (.cancellable input)
      = if (poll setting false input).answer = .finished then
          ⟨.finished, .closed,
            (poll setting false input).events ++ (poll setting false input).next.release⟩
        else
          ⟨(poll setting false input).answer, .cancellable (poll setting false input).next,
            (poll setting false input).events⟩ := by
  rw [poll_nested frames_cancellable]
  obtain ⟨answer, next, events⟩ := poll setting false input
  cases answer <;> rfl

end Stream

end RowQuery
