import RowQuery.Proofs.Demand

set_option autoImplicit false

/-! # The course of an enumeration

The *course* of a query is its nested loop, run from front to back without a state: the elements
that it comes to, and between them notes of what is opened and taken on the way. It is the listing
of the query with these notes in it. A filter opens its input and goes through it, a join opens its
outer query and for every element of it the inner query anew, and a leaf takes one entry after the
other.

The stream of the query takes the same way (`Stream.course_step`): what a round reaches comes next
in the course. So the stream never looks ahead. Whenever it has answered with so many elements,
errors or ends, it has opened and taken what the loop has up to there, at every place, and nothing
else (`Stream.untilResult_record`). -/

namespace RowQuery

/-- Values, and between them notes of what is reached on the way to them. -/
abbrev Course := Listing (Note ⊕ Value)

namespace Course

/-! ## Loops with notes -/

/-- Values that are come by without reaching anything. -/
def plain : Listing Value → Course
  | .finished => .finished
  | .error e => .error e
  | .item v rest => .item (.inr v) (plain rest)

/-- A course with notes in front. -/
def noted (notes : List Note) (l : Course) : Course :=
  notes.foldr (fun n rest => .item (.inl n) rest) l

/-- The course of every value in its place, behind the notes of the way to it. -/
def loop (b : Branch) (f : Value → Course) : Course → Course
  | .finished => .finished
  | .error e => .error e
  | .item (.inl n) rest => .item (.inl (n.under b)) (loop b f rest)
  | .item (.inr v) rest => (f v).append (loop b f rest)

/-- The course of a script: its entries are taken one by one, up to the first error. -/
def taking (leaf : Leaf) : List (Item Value) → Course
  | [] => noted [.took leaf none] .finished
  | .value v :: rest => noted [.took leaf (some (.value v))] (.item (.inr v) (taking leaf rest))
  | .error e :: _ => noted [.took leaf (some (.error e))] (.error e)
  | .pending :: rest => noted [.took leaf (some .pending)] (taking leaf rest)

theorem noted_append (notes more : List Note) (l : Course) :
    noted (notes ++ more) l = noted notes (noted more l) :=
  List.foldr_append

theorem append_noted (notes : List Note) (l m : Course) :
    (noted notes l).append m = noted notes (l.append m) := by
  induction notes with
  | nil => rfl
  | cons n rest ih => exact congrArg (Listing.item (.inl n)) ih

/-- The notes of an input are notes of its operator, with one more branch on the way. -/
theorem loop_noted (b : Branch) (f : Value → Course) (notes : List Note) (l : Course) :
    loop b f (noted notes l) = noted (notes.map (.under b)) (loop b f l) := by
  induction notes with
  | nil => rfl
  | cons n rest ih => exact congrArg (Listing.item (.inl (n.under b))) ih

/-- The combinations of one outer element with the elements of an inner course. -/
def pairs (condition combine : CompiledExpr) (a : Value) (inner : Course) : Course :=
  loop .inner (fun b => plain (Listing.combined condition combine a b)) inner

/-- Going through the inner query for one outer element, which opens it first. -/
def rescan (inner : Query) (course : Course) (condition combine : CompiledExpr) (a : Value) :
    Course :=
  noted [.opened .inner inner] (pairs condition combine a course)

/-- What is noted and answered on a course. -/
def record : Course → List (Note ⊕ Answer)
  | .finished => [.inr .finished]
  | .error e => [.inr (.error e)]
  | .item (.inl n) rest => .inl n :: record rest
  | .item (.inr v) rest => .inr (.row v) :: record rest

theorem record_noted (notes : List Note) (l : Course) :
    record (noted notes l) = notes.map .inl ++ record l := by
  induction notes with
  | nil => rfl
  | cons n rest ih => exact congrArg (List.cons (Sum.inl n)) ih

end Course

open Course (plain noted loop taking pairs rescan)

/-- The nested loop of a query. -/
def Query.course : Query → Course
  | .values rows => taking .values (rows.map .value)
  | .script name items _ => taking (.script name) items
  | .failing e => taking .failing [.error e]
  | .counting _ input => course input
  | .absorbing _ _ _ input => course input
  | .declining _ input => course input
  | .localFilter input p =>
    .given (CompiledExpr.compile p 1) (fun c =>
      noted [.opened .input input] (loop .input (fun v => plain (Listing.kept c v)) (course input)))
  | .localProject input e =>
    .given (CompiledExpr.compile e 1) (fun c =>
      noted [.opened .input input]
        (loop .input (fun v => plain (Listing.mapped c v)) (course input)))
  | .localJoin outer inner condition combine =>
    .given (do
        let c ← CompiledExpr.compile condition 2
        let d ← CompiledExpr.compile combine 2
        return (c, d))
      (fun (c, d) =>
        noted [.opened .outer outer]
          (loop .outer (rescan inner (course inner) c d) (course outer)))
  | .stalled => .finished
  | .sql _ => .finished

/-! ## Courses without their notes -/

namespace Course

/-- The values of a course. -/
def bare : Course → Listing Value
  | .finished => .finished
  | .error e => .error e
  | .item (.inl _) rest => bare rest
  | .item (.inr v) rest => .item v (bare rest)

theorem bare_plain (l : Listing Value) : bare (plain l) = l := by
  induction l with
  | finished => rfl
  | error e => rfl
  | item v rest ih => exact congrArg (Listing.item v) ih

theorem bare_noted (notes : List Note) (l : Course) : bare (noted notes l) = bare l := by
  induction notes with
  | nil => rfl
  | cons n rest ih => exact ih

theorem bare_append (l m : Course) : bare (l.append m) = (bare l).append (bare m) := by
  induction l with
  | finished => rfl
  | error e => rfl
  | item a rest ih =>
      cases a with
      | inl n => exact ih
      | inr v => exact congrArg (Listing.item v) ih

theorem bare_loop (b : Branch) (f : Value → Course) (l : Course) :
    bare (loop b f l) = (bare l).forEach (fun v => bare (f v)) := by
  induction l with
  | finished => rfl
  | error e => rfl
  | item a rest ih =>
      cases a with
      | inl n => exact ih
      | inr v =>
          show bare ((f v).append (loop b f rest)) = (bare (f v)).append _
          rw [bare_append, ih]

theorem bare_taking (leaf : Leaf) (items : List (Item Value)) :
    bare (taking leaf items) = .ofScript items := by
  induction items with
  | nil => rfl
  | cons entry rest ih =>
      cases entry with
      | value v => exact congrArg (Listing.item v) ih
      | error e => rfl
      | pending => exact ih

theorem bare_given {ρ : Type} (result : Except EvalError ρ) (f : ρ → Course) :
    bare (.given result f) = .given result (fun r => bare (f r)) := by
  cases result <;> rfl

end Course

/-- The values of the course of a query are what its enumeration lists. -/
theorem Query.bare_course {q : Query} (h : q.Replays) : q.course.bare = q.trace.settled := by
  induction q with
  | values rows | script name items observes =>
      exact (Course.bare_taking _ _).trans (Listing.settled_replay _).symm
  | failing e => rfl
  | counting counter input ih => exact ih h
  | absorbing name supported refusal input ih => exact ih h
  | declining supported input ih => exact ih h
  | localFilter input p ih =>
      simp only [course, trace, Course.bare_given, Course.bare_noted, Course.bare_loop,
        Course.bare_plain, Listing.settled_given, Listing.settled_forEachReady,
        Listing.settled_ready, ih h]
  | localProject input e ih =>
      simp only [course, trace, Course.bare_given, Course.bare_noted, Course.bare_loop,
        Course.bare_plain, Listing.settled_given, Listing.settled_forEachReady,
        Listing.settled_ready, ih h]
  | localJoin outer inner condition combine ihOuter ihInner =>
      simp only [course, trace_localJoin, matchesOf, rescan, pairs, Course.bare_given,
        Course.bare_noted, Course.bare_loop, Course.bare_plain, Listing.settled_given,
        Listing.settled_forEachReady, Listing.settled_ready, ihOuter h.1, ihInner h.2]
  | _ => exact absurd h id

namespace Stream

/-- What is left of the nested loop of a stream. -/
def course : Stream → Course
  | .values rest => taking .values (rest.map .value)
  | .script name rest => taking (.script name) rest
  | .failing none => taking .failing []
  | .failing (some e) => taking .failing [.error e]
  | .counting _ inner => course inner
  | .cancellable inner => course inner
  | .filterIdle input p => (Query.localFilter input p).course
  | .filterOpen c input => loop .input (fun v => plain (Listing.kept c v)) (course input)
  | .projectIdle input e => (Query.localProject input e).course
  | .projectOpen c input => loop .input (fun v => plain (Listing.mapped c v)) (course input)
  | .joinIdle outer inner condition combine =>
    (Query.localJoin outer inner condition combine).course
  | .joinOuter inner c d outer => loop .outer (rescan inner inner.course c d) (course outer)
  | .joinInner inner c d outer row current =>
    (pairs c d row (course current)).append
      (loop .outer (rescan inner inner.course c d) (course outer))
  | _ => .finished

/-- Opening a stream reaches nothing of the course. -/
theorem course_stream (q : Query) : q.stream.course = q.course := by
  induction q with
  | script name items observesToken => cases observesToken <;> rfl
  | counting counter input ih => exact ih
  | absorbing name supported refusal input ih => exact ih
  | declining supported input ih => exact ih
  | _ => rfl

/-- A course with the answer of a round put back in front. -/
def resumed (answer : Option Answer) (rest : Course) : Course :=
  match answer with
  | none => rest
  | some .pending => rest
  | some (.row v) => .item (.inr v) rest
  | some (.error e) => .error e
  | some .finished => .finished

/-- What was left of the course before a round, but for the notes of the round. -/
def courseBefore (r : Round Stream) : Course := resumed r.answer r.next.course

/-! ## Rounds of the operators -/

theorem courseBefore_filterNext (c : CompiledExpr) (r : Round Stream) :
    courseBefore (filterNext c r)
      = loop .input (fun v => plain (Listing.kept c v)) (courseBefore r) := by
  obtain ⟨answer, next, events⟩ := r
  rcases answer with _ | v | e | _ | _
  · rfl
  · show _ = (plain (Listing.kept c v)).append _
    simp only [filterNext, Listing.kept]
    cases c.evalPredicate [v] with
    | error e => rfl
    | ok holds => cases holds <;> rfl
  · rfl
  · rfl
  · rfl

theorem courseBefore_projectNext (c : CompiledExpr) (r : Round Stream) :
    courseBefore (projectNext c r)
      = loop .input (fun v => plain (Listing.mapped c v)) (courseBefore r) := by
  obtain ⟨answer, next, events⟩ := r
  rcases answer with _ | v | e | _ | _
  · rfl
  · show _ = (plain (Listing.mapped c v)).append _
    simp only [projectNext, Listing.mapped]
    cases c.eval [v] <;> rfl
  · rfl
  · rfl
  · rfl

/-- An outer element opens the inner query, and a new course of it comes in the place of the
element. -/
theorem courseBefore_joinOuterNext (inner : Query) (c d : CompiledExpr) (r : Round Stream) :
    noted (openedFor inner r.answer) (courseBefore (joinOuterNext inner c d r))
      = loop .outer (rescan inner inner.course c d) (courseBefore r) := by
  obtain ⟨answer, next, events⟩ := r
  rcases answer with _ | v | e | _ | _
  · rfl
  · show noted _ ((pairs c d v inner.stream.course).append _) = (noted _ _).append _
    rw [course_stream, Course.append_noted]
    rfl
  · rfl
  · rfl
  · rfl

/-- While a join goes through inner elements, the outer elements to come wait behind them. -/
theorem courseBefore_joinInnerNext (inner : Query) (c d : CompiledExpr) (outer : Stream)
    (row : Value) (r : Round Stream) :
    courseBefore (joinInnerNext inner c d outer row r)
      = (pairs c d row (courseBefore r)).append
          (loop .outer (rescan inner inner.course c d) outer.course) := by
  obtain ⟨answer, next, events⟩ := r
  rcases answer with _ | v | e | _ | _
  · rfl
  · show _ = ((plain (Listing.combined c d row v)).append _).append _
    rw [Listing.append_assoc]
    simp only [joinInnerNext, matched, Listing.combined]
    cases c.evalPredicate [row, v] with
    | error e => rfl
    | ok holds =>
        cases holds with
        | false => rfl
        | true => cases d.eval [row, v] <;> rfl
  · rfl
  · rfl
  · rfl

theorem courseBefore_around (inner : Stream) (r : Round Stream) :
    courseBefore ((Cancellable.around release false inner (fun _ => r)).map adapter)
      = courseBefore r := by
  obtain ⟨answer, next, events⟩ := r
  rcases answer with _ | v | e | _ | _ <;> rfl

/-! ## Rounds, polls and runs -/

/-- **What a round reaches comes next in the course**, and then its answer. -/
theorem course_step (setting : Setting) {s : Stream} (h : s.Scripted) :
    noted (s.notes setting false) (courseBefore (step setting false s)) = s.course := by
  induction s with
  | values rest => cases rest <;> rfl
  | script name rest => rcases rest with _ | ⟨_ | _ | _, rest⟩ <;> rfl
  | failing e => cases e <;> rfl
  | counting counter inner ih => exact ih h
  | cancellable inner ih =>
      rw [step, courseBefore_around]
      exact ih h
  | filterIdle input p =>
      have hc := setting.compile_fst p 1
      rw [step, notes, if_neg Bool.false_ne_true, if_neg Bool.false_ne_true]
      rcases hs : setting.compile p 1 with ⟨e | c, events⟩
      · rw [hs] at hc
        simp only [course, Query.course, ← hc]
        rfl
      · rw [hs] at hc
        simp only [course, Query.course, ← hc, Listing.given_ok, ← course_stream]
        rfl
  | filterOpen c input ih =>
      rw [step, notes, if_neg Bool.false_ne_true, if_neg Bool.false_ne_true,
        courseBefore_filterNext, ← Course.loop_noted, ih h]
      rfl
  | projectIdle input e =>
      have hc := setting.compile_fst e 1
      rw [step, notes, if_neg Bool.false_ne_true, if_neg Bool.false_ne_true]
      rcases hs : setting.compile e 1 with ⟨err | c, events⟩
      · rw [hs] at hc
        simp only [course, Query.course, ← hc]
        rfl
      · rw [hs] at hc
        simp only [course, Query.course, ← hc, Listing.given_ok, ← course_stream]
        rfl
  | projectOpen c input ih =>
      rw [step, notes, if_neg Bool.false_ne_true, if_neg Bool.false_ne_true,
        courseBefore_projectNext, ← Course.loop_noted, ih h]
      rfl
  | joinIdle outer inner condition combine =>
      have hc := setting.compileBoth_fst condition combine 2
      rw [step, notes, if_neg Bool.false_ne_true, if_neg Bool.false_ne_true]
      show _ = (Query.localJoin outer inner condition combine).course
      rw [Query.course, ← hc]
      rcases hs : setting.compileBoth condition combine 2 with ⟨e | ⟨c, d⟩, events⟩
      · rfl
      · rw [← course_stream outer]
        rfl
  | joinOuter inner c d outer ih =>
      rw [step, notes, if_neg Bool.false_ne_true, if_neg Bool.false_ne_true, Course.noted_append,
        courseBefore_joinOuterNext, ← Course.loop_noted, ih h.1]
      rfl
  | joinInner inner c d outer row current _ ih =>
      rw [step, notes, if_neg Bool.false_ne_true, if_neg Bool.false_ne_true,
        courseBefore_joinInnerNext, ← Course.append_noted, pairs, ← Course.loop_noted, ih h.2.1]
      rfl
  | closed => rfl
  | _ => exact absurd h id

/-- So does what a poll reaches. -/
theorem course_poll (setting : Setting) {s : Stream} (h : s.Scripted) :
    noted (notesOfPoll setting false s)
        (resumed (some (poll setting false s).answer) (poll setting false s).next.course)
      = s.course := by
  fun_induction poll setting false s with
  | case1 setting s answer next events hs =>
      have hstep := course_step setting h
      rw [hs] at hstep
      rw [notesOfPoll_of_step_some hs]
      exact hstep
  | case2 setting s next events hs rest ih =>
      have hstep := course_step setting h
      have hnext := scripted_step setting false h
      rw [hs] at hstep hnext
      rw [notesOfPoll_of_step_none hs, Course.noted_append, ih hnext]
      exact hstep

end Stream

/-! ## The moment of a result -/

/-- What is on record when so many results have been answered, be they elements, errors or ends. To
be not ready is not a result. -/
def untilResult : Nat → List (Note ⊕ Answer) → List (Note ⊕ Answer)
  | 0, _ => []
  | _ + 1, [] => []
  | k + 1, .inl n :: rest => .inl n :: untilResult (k + 1) rest
  | k + 1, .inr .pending :: rest => untilResult (k + 1) rest
  | k + 1, .inr a :: rest => .inr a :: untilResult k rest

/-- The results on record. -/
def resultsOf (record : List (Note ⊕ Answer)) : List Answer :=
  (record.filterMap Sum.getRight?).filter (· ≠ .pending)

theorem untilResult_notes (k : Nat) (notes : List Note) (rest : List (Note ⊕ Answer)) :
    untilResult (k + 1) (notes.map .inl ++ rest) = notes.map .inl ++ untilResult (k + 1) rest := by
  induction notes with
  | nil => rfl
  | cons n more ih => exact congrArg (List.cons (Sum.inl n)) ih

theorem untilResult_of_isLast {a : Answer} (h : a.isLast = true) (k : Nat)
    (rest : List (Note ⊕ Answer)) :
    untilResult (k + 1) (.inr a :: rest) = .inr a :: untilResult k rest := by
  cases a with
  | pending => cases h
  | _ => rfl

/-- Notes are not results. -/
theorem resultsOf_notes (notes : List Note) (rest : List (Note ⊕ Answer)) :
    resultsOf (notes.map .inl ++ rest) = resultsOf rest := by
  induction notes with
  | nil => rfl
  | cons n more ih => exact ih

theorem length_resultsOf_of_isLast {a : Answer} (h : a.isLast = true)
    (rest : List (Note ⊕ Answer)) :
    (resultsOf (.inr a :: rest)).length = (resultsOf rest).length + 1 := by
  cases a with
  | pending => cases h
  | _ => rfl

/-- Where there is nothing but the end, the first ends are ends. -/
theorem untilResult_replicate {k n : Nat} (h : k ≤ n) :
    untilResult k (List.replicate n (.inr .finished)) = List.replicate k (.inr .finished) := by
  induction k generalizing n with
  | zero => rw [untilResult, List.replicate_zero]
  | succ k ih =>
      obtain ⟨m, rfl⟩ : ∃ m, n = m + 1 := ⟨n - 1, by omega⟩
      exact congrArg (List.cons _) (ih (Nat.le_of_succ_le_succ h))

theorem length_resultsOf_replicate (n : Nat) :
    (resultsOf (List.replicate n (.inr .finished))).length = n := by
  induction n with
  | zero => rfl
  | succ n ih => exact congrArg Nat.succ ih

namespace Stream

/-- A stream that has closed reaches nothing. -/
theorem record_closed (occasions : List Occasion) :
    record occasions .closed = List.replicate occasions.length (.inr .finished) := by
  induction occasions with
  | nil => rfl
  | cons o rest ih =>
      have hnotes : notesOfPoll o.setting o.cancelled .closed = [] :=
        notesOfPoll_of_step_some rfl
      rw [record, hnotes, poll_closed, ih]
      rfl

/-- A stream that ends for good: that of an operator, or one that has closed. -/
def EndsForGood (s : Stream) : Prop := s.isLocal = true ∨ s = .closed

theorem endsForGood_poll (setting : Setting) (token : Bool) {s : Stream} (h : s.EndsForGood) :
    (poll setting token s).next.EndsForGood ∧
      ((poll setting token s).answer.isLast = true → (poll setting token s).next = .closed) := by
  rcases h with hlocal | rfl
  · have hpoll := closesWithLast_poll setting token hlocal
    rw [closesWithLast, Option.any_some] at hpoll
    by_cases hlast : (poll setting token s).answer.isLast = true
    · rw [if_pos hlast] at hpoll
      exact ⟨.inr hpoll, fun _ => hpoll⟩
    · rw [if_neg hlast] at hpoll
      exact ⟨.inl hpoll, fun h => absurd h hlast⟩
  · rw [poll_closed]
    exact ⟨.inr rfl, fun _ => rfl⟩

/-- After the last answer of its course, a stream that ends for good has reached nothing more. -/
theorem untilResult_after_last {occasions : List Occasion} {next : Stream} {a : Answer}
    (ha : a.isLast = true) {k more : Nat} (hmore : k ≤ more)
    (hrun : k + 1 ≤ (resultsOf (.inr a :: next.record occasions)).length)
    (hend : next = .closed ∨ k = 0) :
    untilResult (k + 1) (.inr a :: next.record occasions)
      = untilResult (k + 1) (.inr a :: List.replicate more (.inr .finished)) := by
  rw [untilResult_of_isLast ha, untilResult_of_isLast ha]
  rcases hend with rfl | rfl
  · rw [length_resultsOf_of_isLast ha, record_closed, length_resultsOf_replicate] at hrun
    rw [record_closed, untilResult_replicate (Nat.le_of_succ_le_succ hrun),
      untilResult_replicate hmore]
  · rw [untilResult, untilResult]

/-- **When it has answered with so many results, a stream has reached what its course reaches on the
way to them.** The course is followed by the end, again and again; a stream that does not end for
good is compared up to the last answer of the course. -/
theorem untilResult_record {settings : List Setting} {s : Stream} (h : s.Scripted) {k : Nat}
    (hrun : k ≤ (resultsOf (s.record (settings.map .live))).length)
    (hend : s.EndsForGood ∨ k ≤ (resultsOf s.course.record).length) {more : Nat}
    (hmore : k ≤ more) :
    untilResult k (s.record (settings.map .live))
      = untilResult k (s.course.record ++ List.replicate more (.inr .finished)) := by
  induction settings generalizing s k with
  | nil =>
      obtain rfl : k = 0 := Nat.le_zero.mp hrun
      rw [untilResult, untilResult]
  | cons g rest ih =>
      cases k with
      | zero => rw [untilResult, untilResult]
      | succ k =>
          have hnext := scripted_poll g false h
          -- both sides begin with what this poll reaches, and go on with its answer
          rw [← course_poll g h, Course.record_noted, resultsOf_notes] at hend
          rw [List.map_cons, record, resultsOf_notes] at hrun
          rw [List.map_cons, record, untilResult_notes, ← course_poll g h, Course.record_noted,
            List.append_assoc, untilResult_notes]
          refine congrArg (_ ++ ·) ?_
          have hgood := fun hs : s.EndsForGood => endsForGood_poll g false hs
          change k + 1 ≤ (resultsOf (.inr (poll g false s).answer :: _)).length at hrun
          change untilResult (k + 1) (.inr (poll g false s).answer :: _) = _
          generalize (poll g false s).answer = answer at hrun hend hgood ⊢
          cases answer with
          | row v =>
              refine congrArg (List.cons _) (ih hnext (Nat.le_of_succ_le_succ hrun) ?_ ?_)
              · exact hend.imp (fun hs => (hgood hs).1) Nat.le_of_succ_le_succ
              · exact Nat.le_of_succ_le hmore
          | pending => exact ih hnext hrun (hend.imp_left fun hs => (hgood hs).1) hmore
          | error e =>
              refine untilResult_after_last rfl (Nat.le_of_succ_le hmore) hrun ?_
              exact hend.imp (fun hs => (hgood hs).2 rfl)
                (fun hk => Nat.le_zero.mp (Nat.le_of_succ_le_succ hk))
          | finished =>
              refine untilResult_after_last rfl (Nat.le_of_succ_le hmore) hrun ?_
              exact hend.imp (fun hs => (hgood hs).2 rfl)
                (fun hk => Nat.le_zero.mp (Nat.le_of_succ_le_succ hk))

end Stream

end RowQuery
