import RowQuery.Query.Event

set_option autoImplicit false

/-! # Rounds

A stream answers a poll by going round a loop. A *round* of the loop may come to an answer, or only
move the stream on; it leaves a state behind, and it reports what has happened.

The adapter `Cancellable` works around anything that has rounds. It ends as soon as the token is
cancelled, and for good when what is inside it ends; either way it drops what is inside. Everything
else that the inside answers passes through unchanged, errors included. -/

namespace RowQuery

/-- What a stream answers with when it is polled. -/
inductive Answer where
  | row (v : Value)
  | error (e : QueryError)
  /-- Not ready: to be polled again later. -/
  | pending
  | finished
  deriving DecidableEq

/-- What one round comes to: an answer, unless the loop goes round once more, the state from then
on, and what has happened. -/
structure Round (σ : Type) where
  answer : Option Answer
  next : σ
  events : List Event

/-- The same round, of a state that is seen in another way. -/
def Round.map {σ τ : Type} (f : σ → τ) (r : Round σ) : Round τ := ⟨r.answer, f r.next, r.events⟩

namespace Cancellable

variable {σ : Type}

/-- A round of the adapter around `inner`, where `round` is what a round of `inner` comes to and
`release` what happens when it is dropped. -/
def around (release : σ → List Event) (token : Bool) (inner : σ) (round : Unit → Round σ) :
    Round (Option σ) :=
  if token then ⟨some .finished, none, release inner⟩
  else
    let r := round ()
    match r.answer with
    | some .finished => ⟨some .finished, none, r.events ++ release r.next⟩
    | answer => ⟨answer, some r.next, r.events⟩

/-- A round of the adapter: once it has dropped what was inside, it only answers that it has ended.
-/
def round (release : σ → List Event) (machine : σ → Round σ) (token : Bool) :
    Option σ → Round (Option σ)
  | none => ⟨some .finished, none, []⟩
  | some inner => around release token inner (fun _ => machine inner)

end Cancellable

end RowQuery
