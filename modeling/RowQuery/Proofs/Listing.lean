import RowQuery.Expr.Compiled
import RowQuery.Query.Script

set_option autoImplicit false

/-! # Listings

What an enumeration comes to as a whole: some items in order, and then the end or the first error.
Listings are put together the way a nested loop is. `forEach` puts a listing in the place of every
item and stops at the first error, wherever it comes from; `given` starts with something that may
fail. These are the words in which the meaning of the operators is said, without any state.

A listing of optional items has *pauses*: a `none` stands for a moment at which nothing is ready.
`forEachReady` is the loop that lets the pauses through, and `settled` takes them out. The loop with
pauses and the loop without them agree once the pauses are taken out (`settled_forEachReady`).
-/

namespace RowQuery

/-- Items in order, and then the end or an error. -/
inductive Listing (α : Type) where
  | finished
  | error (e : QueryError)
  | item (a : α) (rest : Listing α)
  deriving DecidableEq

namespace Listing

variable {α β : Type}

/-! ## Nested loops -/

/-- One item and the end. -/
def single (a : α) : Listing α := .item a .finished

/-- The items of both listings; an error in the first one hides the second one. -/
def append : Listing α → Listing α → Listing α
  | .finished, m => m
  | .error e, _ => .error e
  | .item a rest, m => .item a (append rest m)

/-- The listing of every item in its place. -/
def forEach (f : α → Listing β) : Listing α → Listing β
  | .finished => .finished
  | .error e => .error e
  | .item a rest => (f a).append (forEach f rest)

/-- A listing that needs the result of an evaluation: where that fails, there is only its error. -/
def given {ρ : Type} (result : Except EvalError ρ) (f : ρ → Listing α) : Listing α :=
  match result with
  | .ok r => f r
  | .error e => .error (.evaluation e)

@[simp] theorem given_ok {ρ : Type} (r : ρ) (f : ρ → Listing α) : given (.ok r) f = f r := rfl

@[simp] theorem given_error {ρ : Type} (e : EvalError) (f : ρ → Listing α) :
    given (.error e) f = .error (.evaluation e) := rfl

theorem append_assoc (l m n : Listing α) : (l.append m).append n = l.append (m.append n) := by
  induction l with
  | finished => rfl
  | error e => rfl
  | item a rest ih =>
      show Listing.item a ((rest.append m).append n) = .item a (rest.append (m.append n))
      rw [ih]

/-! ## Pauses -/

/-- The same items, with no pause between them. -/
def ready : Listing α → Listing (Option α)
  | .finished => .finished
  | .error e => .error e
  | .item a rest => .item (some a) (ready rest)

/-- The listing of every item in its place; pauses stay where they are. -/
def forEachReady (f : α → Listing (Option β)) : Listing (Option α) → Listing (Option β)
  | .finished => .finished
  | .error e => .error e
  | .item none rest => .item none (forEachReady f rest)
  | .item (some a) rest => (f a).append (forEachReady f rest)

/-- The listing without its pauses. -/
def settled : Listing (Option α) → Listing α
  | .finished => .finished
  | .error e => .error e
  | .item none rest => settled rest
  | .item (some a) rest => .item a (settled rest)

@[simp] theorem settled_ready (l : Listing α) : l.ready.settled = l := by
  induction l with
  | finished => rfl
  | error e => rfl
  | item a rest ih =>
      show Listing.item a rest.ready.settled = .item a rest
      rw [ih]

/-- So many pauses in front. -/
def delayed : Nat → Listing (Option α) → Listing (Option α)
  | 0, l => l
  | n + 1, l => .item none (delayed n l)

theorem settled_delayed (n : Nat) (l : Listing (Option α)) : (delayed n l).settled = l.settled := by
  induction n with
  | zero => rfl
  | succ n ih => exact ih

theorem settled_append (l m : Listing (Option α)) :
    (l.append m).settled = l.settled.append m.settled := by
  induction l with
  | finished => rfl
  | error e => rfl
  | item a rest ih =>
      cases a with
      | none => exact ih
      | some a =>
          show Listing.item a (rest.append m).settled = .item a (rest.settled.append m.settled)
          rw [ih]

/-- Pauses do not change what a loop comes to. -/
theorem settled_forEachReady (f : α → Listing (Option β)) (l : Listing (Option α)) :
    (l.forEachReady f).settled = l.settled.forEach (fun a => (f a).settled) := by
  induction l with
  | finished => rfl
  | error e => rfl
  | item a rest ih =>
      cases a with
      | none => exact ih
      | some a =>
          -- the pauses inside the listing of this item are taken out together with those behind it
          show ((f a).append (rest.forEachReady f)).settled = _
          rw [settled_append, ih]
          rfl

theorem forEachReady_append (f : α → Listing (Option β)) (l m : Listing (Option α)) :
    (l.append m).forEachReady f = (l.forEachReady f).append (m.forEachReady f) := by
  induction l with
  | finished => rfl
  | error e => rfl
  | item a rest ih =>
      cases a with
      | none =>
          show Listing.item none ((rest.append m).forEachReady f) = .item none _
          rw [ih]
      | some a =>
          show (f a).append ((rest.append m).forEachReady f) = ((f a).append _).append _
          rw [ih, append_assoc]

/-- Two loops one behind the other are one loop inside the other. -/
theorem forEachReady_forEachReady {γ : Type} (f : α → Listing (Option β))
    (g : β → Listing (Option γ)) (l : Listing (Option α)) :
    (l.forEachReady f).forEachReady g = l.forEachReady (fun a => (f a).forEachReady g) := by
  induction l with
  | finished => rfl
  | error e => rfl
  | item a rest ih =>
      cases a with
      | none =>
          show Listing.item none ((rest.forEachReady f).forEachReady g) = .item none _
          rw [ih]
      | some a =>
          show ((f a).append (rest.forEachReady f)).forEachReady g = _
          rw [forEachReady_append, ih]
          rfl

/-- A loop that puts every item back in its place changes nothing. -/
theorem forEachReady_single (l : Listing (Option α)) :
    l.forEachReady (fun a => (single a).ready) = l := by
  induction l with
  | finished => rfl
  | error e => rfl
  | item a rest ih =>
      cases a with
      | none => exact congrArg (Listing.item none) ih
      | some a => exact congrArg (Listing.item (some a)) ih

theorem settled_given {ρ : Type} (result : Except EvalError ρ) (f : ρ → Listing (Option α)) :
    (given result f).settled = given result (fun r => (f r).settled) := by
  cases result with
  | ok r => rfl
  | error e => rfl

/-! ## Scripts -/

/-- What a script lists, pauses included. Nothing counts after its first error. -/
def replay : List (Item α) → Listing (Option α)
  | [] => .finished
  | .value a :: rest => .item (some a) (replay rest)
  | .error e :: _ => .error e
  | .pending :: rest => .item none (replay rest)

/-- The values of a script up to its first error. -/
def ofScript : List (Item α) → Listing α
  | [] => .finished
  | .value a :: rest => .item a (ofScript rest)
  | .error e :: _ => .error e
  | .pending :: rest => ofScript rest

/-- Only the values of the script go through the loop. -/
theorem forEachReady_replay_congr {f g : α → Listing (Option β)} {script : List (Item α)}
    (h : ∀ a, Item.value a ∈ script → f a = g a) :
    (replay script).forEachReady f = (replay script).forEachReady g := by
  induction script with
  | nil => rfl
  | cons entry rest ih =>
      have hrest := ih (fun a ha => h a (List.mem_cons_of_mem _ ha))
      cases entry with
      | value a =>
          show (f a).append _ = (g a).append _
          rw [h a List.mem_cons_self, hrest]
      | error e => rfl
      | pending => exact congrArg (Listing.item none) hrest

theorem settled_replay (script : List (Item α)) : (replay script).settled = ofScript script := by
  induction script with
  | nil => rfl
  | cons entry rest ih =>
      cases entry with
      | value a =>
          show Listing.item a (replay rest).settled = .item a (ofScript rest)
          rw [ih]
      | error e => rfl
      | pending => exact ih

/-! ## What operators make of an element -/

/-- The element itself, if the predicate holds of it. -/
def kept (predicate : CompiledExpr) (v : Value) : Listing Value :=
  given (predicate.evalPredicate [v]) (fun holds => if holds then single v else .finished)

/-- The value of the projection on the element. -/
def mapped (projection : CompiledExpr) (v : Value) : Listing Value :=
  given (projection.eval [v]) single

/-- The combination of two elements, if the condition holds of them. -/
def combined (condition combine : CompiledExpr) (a b : Value) : Listing Value :=
  given (condition.evalPredicate [a, b])
    (fun holds => if holds then given (combine.eval [a, b]) single else .finished)

end Listing

end RowQuery
