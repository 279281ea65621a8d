import RowQuery.Proofs.FirstPolls

set_option autoImplicit false

/-! # Events of a kind

Of the events of a round only some are of interest. Where these are the openings and some others,
but neither what is compiled nor what is dropped (`Sifts`), an operator adds nothing to the events
of its input, but that a join opens its inner query. -/

namespace RowQuery

/-- Among the events that are kept are all openings, and no compilations and no drops. -/
structure Sifts (keep : Event → Bool) : Prop where
  opened : ∀ q, keep (.opened q) = true
  compiled : ∀ cell, keep (.compiled cell) = false
  released : ∀ counter, keep (.released counter) = false

namespace Sifts

variable {keep : Event → Bool} (h : Sifts keep)

include h

theorem filter_openEvents (q : Query) : q.openEvents.filter keep = q.openEvents := by
  rw [Query.openEvents, List.filter_cons_of_pos (h.opened _)]
  congr 1
  induction q with
  | counting counter input ih =>
      rw [Query.openedInside, List.filter_cons_of_pos (h.opened _), ih]
  | absorbing name supported refusal input ih => exact ih
  | declining supported input ih => exact ih
  | _ => rfl

theorem filter_compiled {events : List Event} (hevents : ∀ e ∈ events, ∃ cell, e = .compiled cell) :
    events.filter keep = [] := by
  apply List.filter_eq_nil_iff.mpr
  intro e he
  obtain ⟨cell, rfl⟩ := hevents e he
  rw [h.compiled]
  exact Bool.false_ne_true

/-- When an operator opens its input after compiling its expressions, the opening is kept. -/
theorem filter_opening {events : List Event} (hevents : ∀ e ∈ events, ∃ cell, e = .compiled cell)
    (input : Query) : (events ++ input.openEvents).filter keep = input.openEvents := by
  rw [List.filter_append, h.filter_compiled hevents, h.filter_openEvents, List.nil_append]

theorem filter_release (s : Stream) : s.release.filter keep = [] := by
  apply List.filter_eq_nil_iff.mpr
  intro e he
  obtain ⟨counter, -, rfl⟩ := List.mem_map.mp he
  rw [h.released]
  exact Bool.false_ne_true

theorem filter_append_release (events : List Event) (s : Stream) :
    (events ++ s.release).filter keep = events.filter keep := by
  rw [List.filter_append, h.filter_release, List.append_nil]

section Operators

variable (r : Round Stream)

theorem filter_close (answer : Answer) :
    (Stream.close r answer).events.filter keep = r.events.filter keep :=
  h.filter_append_release r.events r.next

theorem filter_filterNext (c : CompiledExpr) :
    (Stream.filterNext c r).events.filter keep = r.events.filter keep := by
  rcases Stream.filterNext_cases c r with ⟨a, -, hr⟩ | ⟨answer, -, hr⟩
  · rw [hr, h.filter_close]
  · rw [hr]

theorem filter_projectNext (c : CompiledExpr) :
    (Stream.projectNext c r).events.filter keep = r.events.filter keep := by
  rcases Stream.projectNext_cases c r with ⟨a, -, hr⟩ | ⟨answer, -, hr⟩
  · rw [hr, h.filter_close]
  · rw [hr]

/-- A join opens a stream of its inner query for every outer row. -/
theorem filter_joinOuterNext (inner : Query) (c d : CompiledExpr) :
    (Stream.joinOuterNext inner c d r).events.filter keep
      = r.events.filter keep ++ (Stream.pulled inner r.answer).flatMap (·.query.openEvents) := by
  obtain ⟨answer, next, events⟩ := r
  rcases answer with _ | v | e | _ | _
  · exact (List.append_nil _).symm
  · show (events ++ inner.openEvents).filter keep
      = events.filter keep ++ (inner.openEvents ++ [])
    rw [List.filter_append, h.filter_openEvents, List.append_nil]
  · exact (h.filter_close _ _).trans (List.append_nil _).symm
  · exact (List.append_nil _).symm
  · exact (h.filter_close _ _).trans (List.append_nil _).symm

theorem filter_joinInnerNext (inner : Query) (c d : CompiledExpr) (outer : Stream) (row : Value) :
    (Stream.joinInnerNext inner c d outer row r).events.filter keep = r.events.filter keep := by
  rcases Stream.joinInnerNext_cases inner c d outer row r with ⟨a, -, hr⟩ | ⟨answer, -, hr⟩ | hr
  · rw [hr, h.filter_append_release, h.filter_append_release]
  · rw [hr]
  · rw [hr, h.filter_append_release]

theorem filter_around (inner : Stream) :
    ((Cancellable.around Stream.release false inner (fun _ => r)).map
        Stream.adapter).events.filter keep
      = r.events.filter keep := by
  obtain ⟨answer, next, events⟩ := r
  rcases answer with _ | v | e | _ | _
  · rfl
  · rfl
  · rfl
  · rfl
  · exact h.filter_append_release events next

end Operators

end Sifts

end RowQuery
