import RowQuery.Proofs.Schedule

set_option autoImplicit false

/-! # The rounds of a poll

A poll takes a number of rounds (`Stream.turns`), each in the surroundings that the earlier ones
have left behind. A round goes down one path of the tree, from a stream to the input that it is
waiting for; where it finds its token cancelled it goes no further. At the end of the path may stand
the stream of a table that has not been polled before (`Stream.firstPolls`). That is when it issues
its command, and the only time that it matters how a connection answers.
-/

namespace RowQuery

/-- The stream of a table, by its query. -/
structure TableStream where
  table : SqlQuery
  /-- Whether it is the inner side of a join, opened for one outer row. -/
  perRow : Bool
  deriving DecidableEq

/-- A round of a stream, and the surroundings it finds. -/
structure Turn where
  setting : Setting
  stream : Stream

namespace Stream

/-- The rounds that a poll takes. -/
def turns (setting : Setting) (token : Bool) (s : Stream) : List Turn :=
  match _h : step setting token s with
  | ⟨some _, _, _⟩ => [⟨setting, s⟩]
  | ⟨none, next, events⟩ => ⟨setting, s⟩ :: turns (setting.recordAll events) token next
termination_by s.work setting.behavior
decreasing_by
  rw [Setting.behavior_recordAll]
  exact work_step_lt _h

theorem turns_of_step_some {setting : Setting} {token : Bool} {s next : Stream} {answer : Answer}
    {events : List Event} (h : step setting token s = ⟨some answer, next, events⟩) :
    turns setting token s = [⟨setting, s⟩] := by
  rw [turns]
  split
  · rfl
  · rename_i h'
    rw [h] at h'
    cases h'

theorem turns_of_step_none {setting : Setting} {token : Bool} {s next : Stream}
    {events : List Event} (h : step setting token s = ⟨none, next, events⟩) :
    turns setting token s
      = ⟨setting, s⟩ :: turns (setting.recordAll events) token next := by
  rw [turns]
  split
  · rename_i h'
    rw [h] at h'
    cases h'
  · rename_i h'
    rw [h] at h'
    cases h'
    rfl

/-- The table whose stream a round polls for the first time. -/
def firstPolls (token perRow : Bool) : Stream → List TableStream
  | .sqlIdle q => [⟨q, perRow⟩]
  | .counting _ inner => firstPolls token perRow inner
  | .cancellable inner => if token then [] else firstPolls token perRow inner
  | .filterOpen _ input => if token then [] else firstPolls token false input
  | .projectOpen _ input => if token then [] else firstPolls token false input
  | .joinOuter _ _ _ outer => if token then [] else firstPolls token false outer
  | .joinInner _ _ _ _ _ current => if token then [] else firstPolls token true current
  | _ => []

/-- The tables whose streams a poll polls for the first time, in order. -/
def polledFirst (setting : Setting) (token : Bool) (s : Stream) : List TableStream :=
  (turns setting token s).flatMap (fun t => t.stream.firstPolls token false)

theorem polledFirst_of_step_some {setting : Setting} {token : Bool} {s next : Stream}
    {answer : Answer} {events : List Event}
    (h : step setting token s = ⟨some answer, next, events⟩) :
    polledFirst setting token s = s.firstPolls token false := by
  rw [polledFirst, turns_of_step_some h, List.flatMap_singleton]

theorem polledFirst_of_step_none {setting : Setting} {token : Bool} {s next : Stream}
    {events : List Event} (h : step setting token s = ⟨none, next, events⟩) :
    polledFirst setting token s
      = s.firstPolls token false ++ polledFirst (setting.recordAll events) token next := by
  rw [polledFirst, turns_of_step_none h, List.flatMap_cons]
  rfl

end Stream

end RowQuery
