import RowQuery.Proofs.Release
import RowQuery.Sql.Record

set_option autoImplicit false

/-! # Collecting records

To collect records is to make something of every element of a stream as it arrives. A stream that is
drained, where nothing is made of its answers, says what there is to collect. The first of these
answers that cannot be used decides: it is the end, an error of the stream, or an element of which
nothing can be made (`Stream.gather_cases`). It is the last one that is asked for, so what comes
behind it is neither computed nor seen.

An error of the stream therefore hides behind an element that is refused before it, although
collecting plain elements would come to that error.
-/

namespace RowQuery

open Session (openedBy droppedBy)

namespace Stream

/-! ## Draining -/

/-- So many polls in a row, each in the surroundings that the ones before it leave behind. -/
def polls (setting : Setting) : Nat → Stream → Polls
  | 0, s => ⟨[], s, []⟩
  | n + 1, s =>
    let p := poll setting false s
    let later := polls (setting.recordAll p.events) n p.next
    ⟨p.answer :: later.answers, later.next, p.events ++ later.events⟩

section Drain

variable {setting : Setting} {s : Stream}

/-- A stream that is drained goes on after an element. -/
theorem answers_drain_of_row {v : Value} (h : (poll setting false s).answer = .row v) :
    (s.drain setting false).answers = .row v :: ((poll setting false s).next.drain
      (setting.recordAll (poll setting false s).events) false).answers := by
  rw [drain]
  split
  · rename_i w hw
    rw [← hw, h]
  · rename_i e he
    cases h.symm.trans he
  · rename_i hrow herror
    exact absurd h (hrow v)

/-- It goes on after an error too. -/
theorem answers_drain_of_error {e : QueryError} (h : (poll setting false s).answer = .error e) :
    ∃ after, (s.drain setting false).answers = .error e :: after := by
  rw [drain]
  split
  · rename_i v hv
    cases h.symm.trans hv
  · rename_i e' he
    rw [← h, he]
    exact ⟨_, rfl⟩
  · rename_i hrow herror
    exact absurd h (herror e)

/-- It stops at any other answer. -/
theorem answers_drain_of_last {a : Answer} (h : (poll setting false s).answer = a)
    (hrow : ∀ v, a ≠ .row v) (herror : ∀ e, a ≠ .error e) :
    (s.drain setting false).answers = [a] := by
  rw [drain]
  split
  · rename_i v hv
    exact absurd (h.symm.trans hv) (hrow v)
  · rename_i e he
    exact absurd (h.symm.trans he) (herror e)
  · rw [← h]

end Drain

/-! ## Gathering -/

variable {α : Type}

/-- Where the `items` have been made of the elements before it, an answer that cannot be used, with
the answers behind it, and what becomes of the attempt. -/
inductive Concludes (make : Value → Except QueryError α) (items : List α) :
    Answer → List Answer → Outcome α → Prop
  | finished : Concludes make items .finished [] (.ok items)
  | pending : Concludes make items .pending [] .pending
  | error (e : QueryError) (after : List Answer) :
    Concludes make items (.error e) after (.error e)
  | refused {v : Value} {e : QueryError} (h : make v = .error e) (after : List Answer) :
    Concludes make items (.row v) after (.error e)

/-- One more item does not change how an attempt concludes. -/
theorem Concludes.cons {make : Value → Except QueryError α} {items : List α} {a : Answer}
    {after : List Answer} {outcome : Outcome α} (h : Concludes make items a after outcome) (x : α) :
    Concludes make (x :: items) a after (outcome.cons x) := by
  cases h with
  | finished => exact .finished
  | pending => exact .pending
  | error e after => exact .error e after
  | refused h after => exact .refused h after

/-- The course of an attempt to make something of every element. The answers of the stream begin
with elements of which something is made, and `a` is the first one that cannot be used. The attempt
takes just as many polls, and then drops the stream. -/
structure Attempt (setting : Setting) (make : Value → Except QueryError α) (s : Stream)
    (before : List Value) (items : List α) (a : Answer) (after : List Answer) (g : Gathered α) :
    Prop where
  answers : (s.drain setting false).answers = before.map .row ++ a :: after
  made : before.map make = items.map .ok
  concludes : Concludes make items a after g.outcome
  pulled : (s.polls setting (before.length + 1)).answers = before.map .row ++ [a]
  events : g.events = (s.polls setting (before.length + 1)).events ++
    (s.polls setting (before.length + 1)).next.release

namespace Attempt

variable {setting : Setting} {make : Value → Except QueryError α} {s : Stream}

/-- An attempt that concludes with the first answer. -/
theorem first {a : Answer} {after : List Answer} {outcome : Outcome α}
    (ha : (poll setting false s).answer = a) (hdrain : (s.drain setting false).answers = a :: after)
    (hconcludes : Concludes make [] a after outcome) :
    Attempt setting make s [] [] a after
      ⟨outcome, (poll setting false s).events ++ (poll setting false s).next.release⟩ where
  answers := hdrain
  made := rfl
  concludes := hconcludes
  pulled := congrArg (fun a => [a]) ha
  events := by
    show _ = (poll setting false s).events ++ [] ++ (poll setting false s).next.release
    rw [List.append_nil]

/-- An attempt goes on after an element of which something is made. -/
theorem cons {v : Value} {x : α} {before : List Value} {items : List α} {a : Answer}
    {after : List Answer} {g : Gathered α} (hv : (poll setting false s).answer = .row v)
    (hx : make v = .ok x)
    (h : Attempt (setting.recordAll (poll setting false s).events) make (poll setting false s).next
      before items a after g) :
    Attempt setting make s (v :: before) (x :: items) a after
      ⟨g.outcome.cons x, (poll setting false s).events ++ g.events⟩ where
  answers := by
    rw [answers_drain_of_row hv, h.answers]
    rfl
  made := by rw [List.map_cons, List.map_cons, hx, h.made]
  concludes := h.concludes.cons x
  pulled := by
    rw [List.length_cons, polls, hv, h.pulled]
    rfl
  events := by
    rw [List.length_cons, polls, h.events, List.append_assoc]

end Attempt

/-- Every attempt takes its course, which ends with the first answer that cannot be used. -/
theorem gather_cases (setting : Setting) (make : Value → Except QueryError α) (s : Stream) :
    ∃ before items a after,
      Attempt setting make s before items a after (s.gather setting make) := by
  fun_induction gather setting make s with
  | case1 setting s p v hv e he =>
      exact ⟨[], [], _, _, .first hv (answers_drain_of_row hv) (.refused he _)⟩
  | case2 setting s p v hv x hx rest ih =>
      obtain ⟨before, items, a, after, h⟩ := ih
      exact ⟨v :: before, x :: items, a, after, h.cons hv hx⟩
  | case3 setting s p e he =>
      obtain ⟨after, hdrain⟩ := answers_drain_of_error he
      exact ⟨[], [], _, after, .first he hdrain (.error e after)⟩
  | case4 setting s p hpending =>
      have hdrain := answers_drain_of_last hpending (by simp) (by simp)
      exact ⟨[], [], _, _, .first hpending hdrain .pending⟩
  | case5 setting s p hfinished =>
      have hdrain := answers_drain_of_last hfinished (by simp) (by simp)
      exact ⟨[], [], _, _, .first hfinished hdrain .finished⟩

/-! ## The first answer that cannot be used -/

/-- Why an answer cannot be used: it is an error, or nothing can be made of the element. -/
def Refuses (make : Value → Except QueryError α) (a : Answer) (e : QueryError) : Prop :=
  a = .error e ∨ ∃ v, a = .row v ∧ make v = .error e

theorem Refuses.not_made {make : Value → Except QueryError α} {a : Answer} {e : QueryError}
    (h : Refuses make a e) : ∀ v, a = .row v → ¬∃ x, make v = .ok x := by
  rintro v rfl ⟨x, hx⟩
  rcases h with h | ⟨w, hw, he⟩
  · cases h
  · cases hw
    cases hx.symm.trans he

theorem Concludes.not_made {make : Value → Except QueryError α} {items : List α} {a : Answer}
    {after : List Answer} {outcome : Outcome α} (h : Concludes make items a after outcome) :
    ∀ v, a = .row v → ¬∃ x, make v = .ok x := by
  cases h with
  | finished => exact fun v h => nomatch h
  | pending => exact fun v h => nomatch h
  | error e => exact fun v h => nomatch h
  | refused h => exact Refuses.not_made (.inr ⟨_, rfl, h⟩)

/-- There is only one first answer that cannot be used. -/
theorem first_unique {usable : Value → Prop} {before before' : List Value} {a a' : Answer}
    {after after' : List Answer} (hbefore : ∀ v ∈ before, usable v)
    (hbefore' : ∀ v ∈ before', usable v) (ha : ∀ v, a = .row v → ¬usable v)
    (ha' : ∀ v, a' = .row v → ¬usable v)
    (h : before.map .row ++ a :: after = before'.map .row ++ a' :: after') :
    before = before' ∧ a = a' := by
  induction before generalizing before' with
  | nil =>
      cases before' with
      | nil => exact ⟨rfl, (List.cons.inj h).1⟩
      | cons v' before' => exact absurd (hbefore' v' List.mem_cons_self) (ha v' (List.cons.inj h).1)
  | cons v before ih =>
      cases before' with
      | nil => exact absurd (hbefore v List.mem_cons_self) (ha' v (List.cons.inj h).1.symm)
      | cons v' before' =>
          obtain ⟨hv, hrest⟩ := List.cons.inj h
          cases hv
          obtain ⟨rfl, rfl⟩ := ih (List.forall_mem_cons.mp hbefore).2
            (List.forall_mem_cons.mp hbefore').2 hrest
          exact ⟨rfl, rfl⟩

/-- Something is made of everything where as many items are made of it. -/
theorem exists_of_map_eq {β : Type} {make : β → Except QueryError α} {before : List β}
    {items : List α} (h : before.map make = items.map .ok) : ∀ v ∈ before, ∃ x, make v = .ok x := by
  intro v hv
  have hmem : make v ∈ items.map .ok := h ▸ List.mem_map_of_mem hv
  obtain ⟨x, -, hx⟩ := List.mem_map.mp hmem
  exact ⟨x, hx.symm⟩

/-- An attempt fails with the first answer that cannot be used, if it is not the end. -/
theorem gather_of_refuses {setting : Setting} {make : Value → Except QueryError α} {s : Stream}
    {before : List Value} {a : Answer} {after : List Answer} {e : QueryError}
    (hanswers : (s.drain setting false).answers = before.map .row ++ a :: after)
    (hmade : ∀ v ∈ before, ∃ x, make v = .ok x) (hrefuses : Refuses make a e) :
    (s.gather setting make).outcome = .error e ∧
      (s.polls setting (before.length + 1)).answers = before.map .row ++ [a] ∧
      (s.gather setting make).events = (s.polls setting (before.length + 1)).events ++
        (s.polls setting (before.length + 1)).next.release := by
  obtain ⟨before', items, a', after', h⟩ := gather_cases setting make s
  obtain ⟨rfl, rfl⟩ := first_unique hmade (exists_of_map_eq h.made) hrefuses.not_made
    h.concludes.not_made (hanswers.symm.trans h.answers)
  refine ⟨?_, h.pulled, h.events⟩
  have hconcludes := h.concludes
  generalize (s.gather setting make).outcome = outcome at hconcludes
  rcases hrefuses with rfl | ⟨v, rfl, hv⟩
  · cases hconcludes
    rfl
  · cases hconcludes with
    | refused h' => cases hv.symm.trans h'; rfl

/-- An attempt succeeds if all elements up to the end are used. -/
theorem gather_of_finished {setting : Setting} {make : Value → Except QueryError α} {s : Stream}
    {rows : List Value} {items : List α}
    (hanswers : (s.drain setting false).answers = rows.map .row ++ [.finished])
    (hmade : rows.map make = items.map .ok) : (s.gather setting make).outcome = .ok items := by
  obtain ⟨before, items', a, after, h⟩ := gather_cases setting make s
  have hend : ∀ v, Answer.finished = .row v → ¬∃ x, make v = .ok x := fun v h => nomatch h
  obtain ⟨rfl, rfl⟩ := first_unique (exists_of_map_eq hmade) (exists_of_map_eq h.made) hend
    h.concludes.not_made (hanswers.symm.trans h.answers)
  obtain rfl : items = items' :=
    List.map_injective_iff.mpr (fun _ _ => Except.ok.inj) (hmade.symm.trans h.made)
  have hconcludes := h.concludes
  generalize (s.gather setting make).outcome = outcome at hconcludes
  cases hconcludes
  rfl

end Stream

/-! ## Records -/

namespace Record

variable {α : Type}

/-- The answer with a row. -/
def rowOf (fields : Fields) : Answer := .row (.struct fields)

/-- Why a record cannot be made of an answer: it is an error, its row is refused, or its element is
not a row. -/
def Refuses (r : Record α) (a : Answer) (e : QueryError) : Prop :=
  a = .error e ∨ (∃ fields, a = rowOf fields ∧ r.fromRow fields = .error e) ∨
    ∃ v, a = .row v ∧ v.datatype ≠ .struct ∧ e = .evaluation (.notARow v.datatype)

theorem fromValue_eq_ok_iff {r : Record α} {v : Value} {x : α} :
    r.fromValue v = .ok x ↔ ∃ fields, v = .struct fields ∧ r.fromRow fields = .ok x := by
  cases v <;> simp [fromValue]

theorem fromValue_eq_error_iff {r : Record α} {v : Value} {e : QueryError} :
    r.fromValue v = .error e ↔ (∃ fields, v = .struct fields ∧ r.fromRow fields = .error e) ∨
      v.datatype ≠ .struct ∧ e = .evaluation (.notARow v.datatype) := by
  cases v <;> simp [fromValue, Value.datatype, eq_comm]

theorem refuses_iff {r : Record α} {a : Answer} {e : QueryError} :
    Stream.Refuses r.fromValue a e ↔ r.Refuses a e := by
  constructor
  · rintro (h | ⟨v, rfl, hv⟩)
    · exact .inl h
    · rcases fromValue_eq_error_iff.mp hv with ⟨fields, rfl, hfields⟩ | ⟨hkind, he⟩
      · exact .inr (.inl ⟨fields, rfl, hfields⟩)
      · exact .inr (.inr ⟨v, rfl, hkind, he⟩)
  · rintro (h | ⟨fields, rfl, hfields⟩ | ⟨v, rfl, hkind, he⟩)
    · exact .inl h
    · exact .inr ⟨_, rfl, hfields⟩
    · exact .inr ⟨v, rfl, fromValue_eq_error_iff.mpr (.inr ⟨hkind, he⟩)⟩

/-- Elements of which records are made are rows. -/
theorem exists_rows {r : Record α} {values : List Value} {items : List α}
    (h : values.map r.fromValue = items.map .ok) :
    ∃ rows : List Fields, values = rows.map .struct ∧ rows.map r.fromRow = items.map .ok := by
  induction values generalizing items with
  | nil =>
      obtain rfl : items = [] := List.map_eq_nil_iff.mp h.symm
      exact ⟨[], rfl, rfl⟩
  | cons v values ih =>
      obtain ⟨x, items, rfl, hx, hrest⟩ := List.map_eq_cons_iff.mp h.symm
      obtain ⟨fields, rfl, hfields⟩ := fromValue_eq_ok_iff.mp hx.symm
      obtain ⟨rows, rfl, hrows⟩ := ih hrest.symm
      exact ⟨fields :: rows, rfl, by rw [List.map_cons, List.map_cons, hfields, hrows]⟩

theorem map_row_map_struct (rows : List Fields) :
    (rows.map Value.struct).map Answer.row = rows.map rowOf := List.map_map

/-- The first of the answers that is a failure is `a`, which comes behind the rows `before`. -/
structure FirstFailure (r : Record α) (answers : List Answer) (before : List Fields) (a : Answer)
    (e : QueryError) : Prop where
  split : ∃ after, answers = before.map rowOf ++ a :: after
  accepted : ∀ fields ∈ before, ∃ x, r.fromRow fields = .ok x
  refused : r.Refuses a e

section Collect

variable {r : Record α} {setting : Setting} {q : Query}

/-- Collecting comes to the first failure, and asks for nothing behind it. -/
theorem collect_of_firstFailure {before : List Fields} {a : Answer} {e : QueryError}
    (h : r.FirstFailure (q.stream.drain setting false).answers before a e) :
    (r.collect setting q).outcome = .error e ∧
      (q.stream.polls setting (before.length + 1)).answers = before.map rowOf ++ [a] ∧
      (r.collect setting q).events = q.openEvents ++
        ((q.stream.polls setting (before.length + 1)).events ++
          (q.stream.polls setting (before.length + 1)).next.release) := by
  obtain ⟨after, hanswers⟩ := h.split
  have hmade : ∀ v ∈ before.map Value.struct, ∃ x, r.fromValue v = .ok x := by
    intro v hv
    obtain ⟨fields, hfields, rfl⟩ := List.mem_map.mp hv
    exact h.accepted fields hfields
  rw [← map_row_map_struct] at hanswers
  obtain ⟨houtcome, hpulled, hevents⟩ :=
    Stream.gather_of_refuses hanswers hmade (refuses_iff.mpr h.refused)
  rw [List.length_map, map_row_map_struct] at hpulled
  rw [List.length_map] at hevents
  exact ⟨houtcome, hpulled, congrArg (q.openEvents ++ ·) hevents⟩

/-- There are three ways in which collecting can end: all elements have become records, there is a
first failure, or the stream is not ready. -/
theorem collect_cases (r : Record α) (setting : Setting) (q : Query) :
    (∃ (rows : List Fields) (items : List α), (r.collect setting q).outcome = .ok items ∧
      (q.stream.drain setting false).answers = rows.map rowOf ++ [.finished] ∧
      rows.map r.fromRow = items.map .ok) ∨
    (∃ before a e, (r.collect setting q).outcome = .error e ∧
      r.FirstFailure (q.stream.drain setting false).answers before a e) ∨
    ((r.collect setting q).outcome = .pending ∧
      Answer.pending ∈ (q.stream.drain setting false).answers) := by
  obtain ⟨values, items, a, after, h⟩ := Stream.gather_cases setting r.fromValue q.stream
  obtain ⟨rows, rfl, hrows⟩ := exists_rows h.made
  have hanswers := h.answers
  have hconcludes := h.concludes
  rw [map_row_map_struct] at hanswers
  have hfailure : ∀ {e : QueryError}, Stream.Refuses r.fromValue a e →
      r.FirstFailure (q.stream.drain setting false).answers rows a e := by
    intro e he
    exact ⟨⟨after, hanswers⟩, Stream.exists_of_map_eq hrows, refuses_iff.mp he⟩
  rw [show (r.collect setting q).outcome = (q.stream.gather setting r.fromValue).outcome from rfl]
  generalize (q.stream.gather setting r.fromValue).outcome = outcome at hconcludes
  cases hconcludes with
  | finished => exact .inl ⟨rows, items, rfl, hanswers, hrows⟩
  | pending => exact .inr (.inr ⟨rfl, hanswers ▸ List.mem_append_right _ List.mem_cons_self⟩)
  | error e => exact .inr (.inl ⟨rows, _, e, rfl, hfailure (.inl rfl)⟩)
  | refused hv => exact .inr (.inl ⟨rows, _, _, rfl, hfailure (.inr ⟨_, rfl, hv⟩)⟩)

/-- Collecting succeeds exactly if the answers are rows that are all accepted, and then the end. -/
theorem collect_eq_ok_iff {items : List α} : (r.collect setting q).outcome = .ok items ↔
    ∃ rows : List Fields, (q.stream.drain setting false).answers = rows.map rowOf ++ [.finished] ∧
      rows.map r.fromRow = items.map .ok := by
  constructor
  · intro hok
    rcases collect_cases r setting q with
      ⟨rows, items', h, hanswers, hrows⟩ | ⟨_, _, _, h, -⟩ | ⟨h, -⟩
    · cases hok.symm.trans h
      exact ⟨rows, hanswers, hrows⟩
    · cases hok.symm.trans h
    · cases hok.symm.trans h
  · rintro ⟨rows, hanswers, hrows⟩
    rw [← map_row_map_struct] at hanswers
    refine Stream.gather_of_finished hanswers ?_
    rw [List.map_map, ← hrows]
    rfl

/-- Collecting fails exactly with the first failure. -/
theorem collect_eq_error_iff {e : QueryError} : (r.collect setting q).outcome = .error e ↔
    ∃ before a, r.FirstFailure (q.stream.drain setting false).answers before a e := by
  constructor
  · intro herror
    rcases collect_cases r setting q with ⟨_, _, h, -⟩ | ⟨before, a, e', h, hfirst⟩ | ⟨h, -⟩
    · cases herror.symm.trans h
    · cases herror.symm.trans h
      exact ⟨before, a, hfirst⟩
    · cases herror.symm.trans h
  · rintro ⟨before, a, hfirst⟩
    exact (collect_of_firstFailure hfirst).1

/-- Where the stream is always ready, collecting succeeds exactly if there is no error and every
element is a row that is accepted. -/
theorem exists_collect_eq_ok_iff
    (hready : Answer.pending ∉ (q.stream.drain setting false).answers) :
    (∃ items, (r.collect setting q).outcome = .ok items) ↔
      (∀ e, Answer.error e ∉ (q.stream.drain setting false).answers) ∧
      ∀ v, Answer.row v ∈ (q.stream.drain setting false).answers →
        ∃ fields x, v = .struct fields ∧ r.fromRow fields = .ok x := by
  constructor
  · rintro ⟨items, hok⟩
    obtain ⟨rows, hanswers, hrows⟩ := collect_eq_ok_iff.mp hok
    rw [hanswers]
    constructor
    · intro e he
      rcases List.mem_append.mp he with he | he
      · obtain ⟨fields, -, hfields⟩ := List.mem_map.mp he
        cases hfields
      · cases List.mem_singleton.mp he
    · intro v hv
      rcases List.mem_append.mp hv with hv | hv
      · obtain ⟨fields, hmem, hfields⟩ := List.mem_map.mp hv
        cases hfields
        obtain ⟨x, hx⟩ := Stream.exists_of_map_eq hrows fields hmem
        exact ⟨fields, x, rfl, hx⟩
      · cases List.mem_singleton.mp hv
  · rintro ⟨herror, hrow⟩
    rcases collect_cases r setting q with
      ⟨_, items, h, -⟩ | ⟨before, a, e, -, hfirst⟩ | ⟨-, hpending⟩
    · exact ⟨items, h⟩
    · -- the answer that is a failure would be an error or an element that is refused
      obtain ⟨after, hanswers⟩ := hfirst.split
      have ha : a ∈ (q.stream.drain setting false).answers :=
        hanswers ▸ List.mem_append_right _ List.mem_cons_self
      rcases refuses_iff.mpr hfirst.refused with rfl | ⟨v, rfl, hv⟩
      · exact absurd ha (herror e)
      · obtain ⟨x, hx⟩ : ∃ x, r.fromValue v = .ok x := by
          obtain ⟨fields, x, hfields⟩ := hrow v ha
          exact ⟨x, fromValue_eq_ok_iff.mpr ⟨fields, hfields⟩⟩
        cases hv.symm.trans hx
    · exact absurd hpending hready

end Collect

/-- **Collecting records stops at the first failure.** Of the answers that the stream of a query
gives when it is drained, take the first one that is an error, a row that is refused or an element
that is not a row. Collecting fails with it, whatever comes behind it, and has polled the stream up
to this answer and no further when it drops it; collecting the elements themselves would fail only
with the first error of the stream. If there is no such answer and the stream is always ready,
collecting succeeds, with one record for each element, in order. In every case what has been opened
on the way has been dropped once when collecting is over. -/
theorem records_stop_at_first_failure (r : Record α) (setting : Setting) (q : Query) :
    let answers := (q.stream.drain setting false).answers
    let collected := r.collect setting q
    (∀ items, collected.outcome = .ok items ↔ ∃ rows : List Fields,
      answers = rows.map rowOf ++ [.finished] ∧ rows.map r.fromRow = items.map .ok) ∧
    (∀ e, collected.outcome = .error e ↔ ∃ before a, r.FirstFailure answers before a e) ∧
    (Answer.pending ∉ answers → collected.outcome ≠ .pending ∧
      ((∃ items, collected.outcome = .ok items) ↔
        (∀ e, Answer.error e ∉ answers) ∧ ∀ v, Answer.row v ∈ answers →
          ∃ fields x, v = .struct fields ∧ r.fromRow fields = .ok x)) ∧
    (∀ before a e, r.FirstFailure answers before a e →
      let pulled := q.stream.polls setting (before.length + 1)
      pulled.answers = before.map rowOf ++ [a] ∧
      collected.events = q.openEvents ++ (pulled.events ++ pulled.next.release)) ∧
    (∀ (before : List Value) e after, answers = before.map .row ++ .error e :: after →
      (q.collect setting).outcome = .error e) ∧
    ∀ counter,
      (∀ first, first <+: collected.events → droppedBy first counter ≤ openedBy first counter) ∧
      openedBy collected.events counter = droppedBy collected.events counter := by
  intro answers collected
  have hbalances : Balances collected.events [] [] := Query.balances_gather setting r.fromValue q
  refine ⟨fun items => collect_eq_ok_iff, fun e => collect_eq_error_iff, ?_, ?_, ?_, ?_⟩
  · intro hready
    refine ⟨?_, exists_collect_eq_ok_iff hready⟩
    intro hpending
    rcases collect_cases r setting q with ⟨_, _, h, -⟩ | ⟨_, _, _, h, -⟩ | ⟨-, h⟩
    · cases hpending.symm.trans h
    · cases hpending.symm.trans h
    · exact hready h
  · intro before a e h
    exact (collect_of_firstFailure h).2
  · intro before e after hanswers
    -- every element is taken as it is, so only an error of the stream can be a failure
    exact (Stream.gather_of_refuses hanswers (fun v _ => ⟨v, rfl⟩) (.inl rfl)).1
  · intro counter
    exact ⟨fun first hfirst => hbalances.droppedBy_le hfirst counter, hbalances.openedBy_eq counter⟩

end Record

end RowQuery
