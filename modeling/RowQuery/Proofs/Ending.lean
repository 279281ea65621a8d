import RowQuery.Proofs.Demand
import RowQuery.Proofs.Nesting
import RowQuery.Proofs.Release

set_option autoImplicit false

/-! # Loops that end

Every stream of an operator goes round a loop of its own, and each turn of it polls an input, which
is another such loop. A turn may open a new inner stream, so there may be more to do after it than
before. `Stream.loop` is these loops as they are nested, with a bound on how far they may go;
wherever they start, some bound is enough, and then they come to what the stream is polled to
(`Stream.halts`). The induction is on the work that is left, which every turn without an
answer lowers, and inside it on the tree of the stream.

Where all leaves follow scripts, an answer that the stream is not ready lowers the work as well. So
a stream that is polled again and again answers with the end at some time, and it has answered that
it is not ready as often as its leaves have come to a pause. -/

namespace RowQuery

namespace Stream

/-! ## Nested loops -/

/-- One turn of the loop of a stream, in which its input is polled by `ask`. -/
def turnWith (ask : Stream → Option Polled) (setting : Setting) (token : Bool) :
    Stream → Option (Round Stream)
  | .counting counter inner => (ask inner).map (fun p => p.round.map (.counting counter))
  | .cancellable inner =>
    if token then some (cancelled inner)
    else
      (ask inner).map (fun p =>
        (Cancellable.around release false p.next (fun _ => p.round)).map adapter)
  | .filterOpen c input =>
    if token then some (cancelled input) else (ask input).map (fun p => filterNext c p.round)
  | .projectOpen c input =>
    if token then some (cancelled input) else (ask input).map (fun p => projectNext c p.round)
  | .joinOuter inner c d outer =>
    if token then some (cancelled outer)
    else (ask outer).map (fun p => joinOuterNext inner c d p.round)
  | .joinInner inner c d outer row current =>
    if token then some ⟨some .finished, .closed, outer.release ++ current.release⟩
    else (ask current).map (fun p => joinInnerNext inner c d outer row p.round)
  | s => some (step setting token s)

/-- The loop of a stream and the loops of its inputs, as far as the bound allows. -/
def loop : Nat → Setting → Bool → Stream → Option Polled
  | 0, _, _, _ => none
  | n + 1, setting, token, s =>
    match turnWith (loop n setting token) setting token s with
    | none => none
    | some ⟨some answer, next, events⟩ => some ⟨answer, next, events⟩
    | some ⟨none, next, events⟩ =>
      (loop n (setting.recordAll events) token next).map (Polled.after events)

/-- The loops come to an answer, and to the one that the stream is polled to, however much further
they might go. -/
def Halts (setting : Setting) (token : Bool) (s : Stream) : Prop :=
  ∃ enough, ∀ n, enough ≤ n → loop n setting token s = some (poll setting token s)

/-- A loop halts after a turn that leads to an answer, or to a stream whose loop halts. -/
theorem halts_of_turn {setting : Setting} {token : Bool} {s : Stream} {r : Round Stream}
    (hturn : ∃ enough, ∀ n, enough ≤ n → turnWith (loop n setting token) setting token s = some r)
    (hpoll : poll setting token s = continued setting token r)
    (hlater : r.answer = none → Halts (setting.recordAll r.events) token r.next) :
    Halts setting token s := by
  obtain ⟨first, hfirst⟩ := hturn
  obtain ⟨_ | answer, next, events⟩ := r
  · obtain ⟨second, hsecond⟩ := hlater rfl
    refine ⟨max first second + 1, ?_⟩
    intro n hn
    obtain ⟨n, rfl⟩ : ∃ m, n = m + 1 := ⟨n - 1, by omega⟩
    rw [loop, hfirst n (by omega), hpoll]
    show (loop n _ token next).map _ = _
    rw [hsecond n (by omega)]
    rfl
  · refine ⟨first + 1, ?_⟩
    intro n hn
    obtain ⟨n, rfl⟩ : ∃ m, n = m + 1 := ⟨n - 1, by omega⟩
    rw [loop, hfirst n (by omega), hpoll]
    rfl

/-- Streams with less to do halt. -/
def SmallerHalt (setting : Setting) (token : Bool) (s : Stream) : Prop :=
  ∀ (g : Setting) (t : Stream), g.behavior = setting.behavior →
    t.work setting.behavior < s.work setting.behavior → Halts g token t

/-- A stream that polls no input halts. -/
theorem halts_of_step {setting : Setting} {token : Bool} {s : Stream}
    (hsmaller : SmallerHalt setting token s)
    (hturn : ∀ ask, turnWith ask setting token s = some (step setting token s)) :
    Halts setting token s := by
  refine halts_of_turn ⟨0, fun n _ => hturn _⟩ (poll_eq_continued setting token s) ?_
  intro hnone
  apply hsmaller _ _ (Setting.behavior_recordAll _ _)
  have hwork := work_step setting token s
  rw [total, hnone] at hwork
  exact hwork

/-- A stream that goes round with an input halts if the input does. -/
theorem halts_of_input {setting : Setting} {token : Bool} {input : Stream}
    {hold : Stream → Stream} {next : Round Stream → Round Stream} (hframes : Frames token hold next)
    (hsmaller : SmallerHalt setting token (hold input))
    (hturn : ∀ ask, turnWith ask setting token (hold input)
      = (ask input).map (fun p => next p.round))
    (hbound : ∀ r, total setting.behavior r ≤ input.work setting.behavior →
      total setting.behavior (next r) ≤ (hold input).work setting.behavior)
    (hle : input.work setting.behavior ≤ (hold input).work setting.behavior)
    (ih : SmallerHalt setting token input → Halts setting token input) :
    Halts setting token (hold input) := by
  obtain ⟨enough, hinput⟩ :=
    ih (fun g t hg ht => hsmaller g t hg (Nat.lt_of_lt_of_le ht hle))
  refine halts_of_turn ⟨enough, fun n hn => ?_⟩ (poll_nested hframes setting input) ?_
  · rw [hturn, hinput n hn]
    rfl
  · intro hnone
    apply hsmaller _ _ (Setting.behavior_recordAll _ _)
    have hwork := hbound (poll setting token input).round (work_poll setting token input)
    rw [total, hnone] at hwork
    exact hwork

/-- **A stream halts if those with less to do halt.** -/
theorem halts_of_smaller (setting : Setting) (token : Bool) {s : Stream}
    (h : SmallerHalt setting token s) : Halts setting token s := by
  induction s with
  | counting counter inner ih =>
      exact halts_of_input (frames_counting token counter) h (fun _ => rfl) (fun _ hr => hr)
        (Nat.le_refl _) ih
  | cancellable inner ih =>
      cases token with
      | true => exact halts_of_step h (fun _ => rfl)
      | false =>
          exact halts_of_input frames_cancellable h (fun _ => rfl)
            (fun _ hr => total_cancellable hr) (Nat.le_refl _) ih
  | filterOpen c input ih =>
      cases token with
      | true => exact halts_of_step h (fun _ => rfl)
      | false =>
          exact halts_of_input (frames_filterOpen c) h (fun _ => rfl)
            (fun _ hr => total_filterNext hr) (Nat.le_refl _) ih
  | projectOpen c input ih =>
      cases token with
      | true => exact halts_of_step h (fun _ => rfl)
      | false =>
          exact halts_of_input (frames_projectOpen c) h (fun _ => rfl)
            (fun _ hr => total_projectNext hr) (Nat.le_refl _) ih
  | joinOuter inner c d outer ih =>
      cases token with
      | true => exact halts_of_step h (fun _ => rfl)
      | false =>
          refine halts_of_input (frames_joinOuter inner c d) h (fun _ => rfl)
            (fun _ hr => total_joinOuterNext hr) ?_ ih
          -- every outer element is worth more than one round
          exact Nat.le_mul_of_pos_right _ (Nat.succ_pos _)
  | joinInner inner c d outer row current _ ih =>
      cases token with
      | true => exact halts_of_step h (fun _ => rfl)
      | false =>
          refine halts_of_input (frames_joinInner inner c d outer row) h (fun _ => rfl)
            (fun _ hr => total_joinInnerNext hr) ?_ ih
          rw [work]
          omega
  | _ => exact halts_of_step h (fun _ => rfl)

/-- **In every state the loops of a stream come to an end.** -/
theorem halts (setting : Setting) (token : Bool) (s : Stream) : Halts setting token s := by
  induction hn : s.work setting.behavior using Nat.strongRecOn generalizing setting s with
  | _ n ih =>
      apply halts_of_smaller
      intro g t hg ht
      rw [hn, ← hg] at ht
      exact ih _ ht g t rfl

end Stream

/-! ## Enumerations that end -/

/-- How connections answer does not matter where there is no table. -/
theorem Query.work_eq_of_replays {q : Query} (h : q.Replays) (b b' : String → Behavior) :
    q.work b = q.work b' := by
  induction q with
  | counting counter input ih => exact ih h
  | absorbing name supported refusal input ih => exact ih h
  | declining supported input ih => exact ih h
  | localFilter input p ih => exact congrArg (· + 1) (ih h)
  | localProject input e ih => exact congrArg (· + 1) (ih h)
  | localJoin outer inner condition combine ihOuter ihInner =>
      rw [work, work, ihOuter h.1, ihInner h.2]
  | stalled => exact absurd h id
  | sql q => exact absurd h id
  | _ => rfl

namespace Stream

theorem work_eq_of_scripted {s : Stream} (h : s.Scripted) (b b' : String → Behavior) :
    s.work b = s.work b' := by
  induction s with
  | failing e => cases e <;> rfl
  | counting counter inner ih => exact ih h
  | cancellable inner ih => exact ih h
  | filterIdle input p => exact congrArg (· + 1) (Query.work_eq_of_replays h b b')
  | filterOpen c input ih => exact ih h
  | projectIdle input e => exact congrArg (· + 1) (Query.work_eq_of_replays h b b')
  | projectOpen c input ih => exact ih h
  | joinIdle outer inner condition combine =>
      rw [work, work, Query.work_eq_of_replays h.1 b b', Query.work_eq_of_replays h.2 b b']
  | joinOuter inner c d outer ih => rw [work, work, ih h.1, Query.work_eq_of_replays h.2 b b']
  | joinInner inner c d outer row current ihOuter ihCurrent =>
      rw [work, work, ihOuter h.1, ihCurrent h.2.1, Query.work_eq_of_replays h.2.2 b b']
  | stalled => exact absurd h id
  | sqlIdle q => exact absurd h id
  | sqlExecuting columns connection delay reply => exact absurd h id
  | sqlReading columns connection rest => exact absurd h id
  | _ => rfl

/-- A pause is taken off a script, so there is strictly less to do after it. -/
theorem work_step_lt_of_pending (setting : Setting) (token : Bool) {s : Stream} (h : s.Scripted)
    (hpending : (step setting token s).answer = some .pending) :
    (step setting token s).next.work setting.behavior < s.work setting.behavior := by
  induction s with
  | values rest => cases rest <;> cases hpending
  | script name rest =>
      rcases rest with _ | ⟨_ | _ | _, rest⟩
      · cases hpending
      · cases hpending
      · cases hpending
      · exact Nat.lt_succ_self _
  | failing e => cases e <;> cases hpending
  | counting counter inner ih => exact ih h hpending
  | cancellable inner ih =>
      cases token with
      | true => cases hpending
      | false =>
          have hinner := (around_pending_iff inner).mp hpending
          rw [step, around_of_pending inner hinner]
          exact ih h hinner
  | filterIdle input p =>
      rw [step] at hpending
      split at hpending
      · cases hpending
      · split at hpending <;> cases hpending
  | filterOpen c input ih =>
      cases token with
      | true => cases hpending
      | false =>
          have hinput := (filterNext_pending_iff c).mp hpending
          rw [step, if_neg Bool.false_ne_true, filterNext_of_pending c hinput]
          exact ih h hinput
  | projectIdle input e =>
      rw [step] at hpending
      split at hpending
      · cases hpending
      · split at hpending <;> cases hpending
  | projectOpen c input ih =>
      cases token with
      | true => cases hpending
      | false =>
          have hinput := (projectNext_pending_iff c).mp hpending
          rw [step, if_neg Bool.false_ne_true, projectNext_of_pending c hinput]
          exact ih h hinput
  | joinIdle outer inner condition combine =>
      rw [step] at hpending
      split at hpending
      · cases hpending
      · split at hpending <;> cases hpending
  | joinOuter inner c d outer ih =>
      cases token with
      | true => cases hpending
      | false =>
          have houter := (joinOuterNext_pending_iff inner c d).mp hpending
          rw [step, if_neg Bool.false_ne_true, joinOuterNext_of_pending inner c d houter]
          exact Nat.mul_lt_mul_of_pos_right (ih h.1 houter) (Nat.succ_pos _)
  | joinInner inner c d outer row current _ ih =>
      cases token with
      | true => cases hpending
      | false =>
          have hcurrent := (joinInnerNext_pending_iff inner c d outer row).mp hpending
          have hless := ih h.2.1 hcurrent
          rw [step, if_neg Bool.false_ne_true,
            joinInnerNext_of_pending inner c d outer row hcurrent, work, work]
          omega
  | closed => cases hpending
  | _ => exact absurd h id

theorem work_poll_lt_of_pending (setting : Setting) (token : Bool) {s : Stream} (h : s.Scripted)
    (hpending : (poll setting token s).answer = .pending) :
    (poll setting token s).next.work setting.behavior < s.work setting.behavior := by
  fun_induction poll setting token s with
  | case1 setting s answer next events hs =>
      cases hpending
      have hround := work_step_lt_of_pending setting token h (by rw [hs])
      rwa [hs] at hround
  | case2 setting s next events hs rest ih =>
      have hnext := scripted_step setting token h
      rw [hs] at hnext
      have hrest := ih hnext hpending
      rw [Setting.behavior_recordAll] at hrest
      exact Nat.lt_trans hrest (work_step_lt hs)

/-- Every poll that is not answered with the end leaves strictly less to do. -/
theorem work_poll_lt (setting : Setting) (token : Bool) {s : Stream} (h : s.Scripted)
    (hfinished : (poll setting token s).answer ≠ .finished) :
    (poll setting token s).next.work setting.behavior < s.work setting.behavior := by
  cases hanswer : (poll setting token s).answer with
  | row v => exact work_poll_lt_of_row hanswer
  | error e => exact work_poll_lt_of_error hanswer
  | pending => exact work_poll_lt_of_pending setting token h hanswer
  | finished => exact absurd hanswer hfinished

/-- Among more polls than there is work is one that is answered with the end. -/
theorem finished_mem_pollAll {occasions : List Occasion} {s : Stream} (h : s.Scripted)
    (behavior : String → Behavior) (hlength : s.work behavior < occasions.length) :
    Answer.finished ∈ (s.pollAll occasions).answers := by
  induction occasions generalizing s with
  | nil => exact absurd hlength (Nat.not_lt_zero _)
  | cons o rest ih =>
      by_cases hfinished : (poll o.setting o.cancelled s).answer = .finished
      · rw [pollAll, hfinished]
        exact List.mem_cons_self
      · have hnext := scripted_poll o.setting o.cancelled h
        have hless := work_poll_lt o.setting o.cancelled h hfinished
        rw [work_eq_of_scripted hnext _ behavior, work_eq_of_scripted h _ behavior] at hless
        rw [List.length_cons] at hlength
        exact List.mem_cons_of_mem _ (ih hnext (by omega))

end Stream

namespace Query

theorem Enumeration.scripted {q : Query} (h : q.Replays) {events : List Event} {s : Stream}
    (hs : q.Enumeration events s) : s.Scripted := by
  induction hs with
  | opened => exact Stream.scripted_stream h
  | round hs setting token ih => exact Stream.scripted_step setting token ih

/-- **Every poll returns, and every enumeration ends.** Let the leaves of a query follow scripts,
and let an enumeration of it be in any state that it can come to, under any cancellations. Then the
loops of the stream, and inside them the loops of its inputs, come to an answer after finitely many
turns, whether a row matches or not. After finitely many polls, the same number in all surroundings,
one has been answered with the end. And as often as the stream answers that it is not ready, as many
pauses have been taken off the scripts of its leaves; these are the polls of leaves that its events
report. -/
theorem every_enumeration_ends (q : Query) (h : q.Replays) (events : List Event) (s : Stream)
    (hs : q.Enumeration events s) :
    (∀ (setting : Setting) (token : Bool), ∃ enough, ∀ n, enough ≤ n →
      s.loop n setting token = some (s.poll setting token)) ∧
    (∃ enough, ∀ occasions : List Occasion, enough ≤ occasions.length →
      Answer.finished ∈ (s.pollAll occasions).answers) ∧
    (∀ occasions : List Occasion,
      (s.reached occasions).countP Note.isPause
          = (s.pollAll occasions).answers.count .pending ∧
        (s.pollAll occasions).events.filter Event.reaches
          = (s.reached occasions).flatMap Note.events) := by
  have hscripted : s.Scripted := hs.scripted h
  refine ⟨fun setting token => Stream.halts setting token s, ?_, fun occasions => ⟨?_, ?_⟩⟩
  · exact ⟨s.work (fun _ => .empty) + 1,
      fun occasions hlength => Stream.finished_mem_pollAll hscripted (fun _ => .empty) hlength⟩
  · exact Stream.countP_isPause_reached occasions hscripted
  · exact Stream.filter_reaches_pollAll occasions s

/-- A join without a match, whose outer input is a join and whose inner input a filter. -/
def unmatched : Query :=
  .localJoin
    (.localJoin (.script "a" [.value (.int64 1), .pending] true)
      (.script "b" [.pending, .value (.int64 2)] false) (.constant (.boolean true)) (.argument 1))
    (.localFilter (.script "c" [.value (.int64 3), .pending] true) (.constant (.boolean false)))
    (.constant (.boolean false)) (.argument 0)

/-- Its only answers before the end are those to the three pauses that it comes to. -/
theorem every_enumeration_ends_unmatched :
    unmatched.Replays ∧
      (unmatched.stream.pollAll (List.replicate 4 (.live .initial))).answers
        = [.pending, .pending, .pending, .finished] ∧
      (unmatched.stream.reached (List.replicate 4 (.live .initial))).countP Note.isPause = 3 := by
  have hreplays : unmatched.Replays := ⟨⟨trivial, trivial⟩, trivial⟩
  obtain ⟨-, -, hpauses⟩ :=
    every_enumeration_ends unmatched hreplays unmatched.openEvents unmatched.stream .opened
  have hanswers : (unmatched.stream.pollAll (List.replicate 4 (.live .initial))).answers
      = [.pending, .pending, .pending, .finished] := by
    decide +kernel
  refine ⟨hreplays, hanswers, ?_⟩
  rw [(hpauses _).1, hanswers]
  rfl

end Query

end RowQuery
