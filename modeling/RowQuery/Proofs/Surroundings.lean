import RowQuery.Proofs.Turns

set_option autoImplicit false

/-! # What a stream sees of its surroundings

A round finds two things around it: how connections answer, and which expressions have been compiled
before. The second cannot be noticed, and the first matters only to a round in which a table is
polled for the first time. Two rounds of one stream that find the same answers of connections, or
that poll no table for the first time, come to the same answer and leave the same stream behind
(`Stream.alike_step`); they may differ in what they report, since an expression is compiled only
once. The same holds of polls and of schedules, so what a stream answers does not depend on the
other streams that share its expressions.
-/

namespace RowQuery

/-- Two rounds come to the same, whatever they report. -/
structure Round.Alike {σ : Type} (r r' : Round σ) : Prop where
  answer : r.answer = r'.answer
  next : r.next = r'.next

theorem Round.Alike.eq {σ : Type} {answer : Option Answer} {next : σ} {events : List Event}
    {r : Round σ} (h : Round.Alike ⟨answer, next, events⟩ r) : r = ⟨answer, next, r.events⟩ := by
  obtain ⟨rfl, rfl⟩ : answer = r.answer ∧ next = r.next := ⟨h.answer, h.next⟩
  rfl

/-- What a stream sees of an occasion, without what has been compiled before. -/
def Occasion.seen (o : Occasion) : (String → Behavior) × Bool := (o.setting.behavior, o.cancelled)

namespace Stream

/-! ## Operators -/

section Operators

variable {r r' : Round Stream}

theorem alike_filterNext (c : CompiledExpr) (h : r.Alike r') :
    (filterNext c r).Alike (filterNext c r') := by
  obtain ⟨answer, next, events⟩ := r
  obtain ⟨answer', next', events'⟩ := r'
  obtain ⟨rfl, rfl⟩ : answer = answer' ∧ next = next' := ⟨h.answer, h.next⟩
  rcases answer with _ | v | e | _ | _
  · exact ⟨rfl, rfl⟩
  · simp only [filterNext]
    split <;> exact ⟨rfl, rfl⟩
  · exact ⟨rfl, rfl⟩
  · exact ⟨rfl, rfl⟩
  · exact ⟨rfl, rfl⟩

theorem alike_projectNext (c : CompiledExpr) (h : r.Alike r') :
    (projectNext c r).Alike (projectNext c r') := by
  obtain ⟨answer, next, events⟩ := r
  obtain ⟨answer', next', events'⟩ := r'
  obtain ⟨rfl, rfl⟩ : answer = answer' ∧ next = next' := ⟨h.answer, h.next⟩
  rcases answer with _ | v | e | _ | _
  · exact ⟨rfl, rfl⟩
  · simp only [projectNext]
    split <;> exact ⟨rfl, rfl⟩
  · exact ⟨rfl, rfl⟩
  · exact ⟨rfl, rfl⟩
  · exact ⟨rfl, rfl⟩

theorem alike_joinOuterNext (inner : Query) (c d : CompiledExpr) (h : r.Alike r') :
    (joinOuterNext inner c d r).Alike (joinOuterNext inner c d r') := by
  obtain ⟨answer, next, events⟩ := r
  obtain ⟨answer', next', events'⟩ := r'
  obtain ⟨rfl, rfl⟩ : answer = answer' ∧ next = next' := ⟨h.answer, h.next⟩
  rcases answer with _ | v | e | _ | _ <;> exact ⟨rfl, rfl⟩

theorem alike_joinInnerNext (inner : Query) (c d : CompiledExpr) (outer : Stream) (row : Value)
    (h : r.Alike r') :
    (joinInnerNext inner c d outer row r).Alike (joinInnerNext inner c d outer row r') := by
  obtain ⟨answer, next, events⟩ := r
  obtain ⟨answer', next', events'⟩ := r'
  obtain ⟨rfl, rfl⟩ : answer = answer' ∧ next = next' := ⟨h.answer, h.next⟩
  rcases answer with _ | v | e | _ | _
  · exact ⟨rfl, rfl⟩
  · simp only [joinInnerNext]
    split <;> exact ⟨rfl, rfl⟩
  · exact ⟨rfl, rfl⟩
  · exact ⟨rfl, rfl⟩
  · exact ⟨rfl, rfl⟩

theorem alike_around (release : Stream → List Event) (inner : Stream) (h : r.Alike r') :
    ((Cancellable.around release false inner (fun _ => r)).map adapter).Alike
      ((Cancellable.around release false inner (fun _ => r')).map adapter) := by
  obtain ⟨answer, next, events⟩ := r
  obtain ⟨answer', next', events'⟩ := r'
  obtain ⟨rfl, rfl⟩ : answer = answer' ∧ next = next' := ⟨h.answer, h.next⟩
  rcases answer with _ | v | e | _ | _ <;> exact ⟨rfl, rfl⟩

end Operators

/-! ## Rounds -/

/-- The result of compiling is the same in all surroundings; only what is reported may differ. -/
theorem compile_agree (g g' : Setting) (e : Expr) (arity : Nat) :
    ∃ result events events', g.compile e arity = (result, events) ∧
      g'.compile e arity = (result, events') :=
  ⟨_, _, _, Prod.ext (g.compile_fst e arity) rfl, Prod.ext (g'.compile_fst e arity) rfl⟩

theorem compileBoth_agree (g g' : Setting) (e f : Expr) (arity : Nat) :
    ∃ result events events', g.compileBoth e f arity = (result, events) ∧
      g'.compileBoth e f arity = (result, events') :=
  ⟨_, _, _, Prod.ext (g.compileBoth_fst e f arity) rfl, Prod.ext (g'.compileBoth_fst e f arity) rfl⟩

/-- How a connection answers is all that a table asks of its surroundings. -/
theorem alike_sqlStart {g g' : Setting} (h : g.behavior = g'.behavior) (q : SqlQuery) :
    (sqlStart g q).Alike (sqlStart g' q) := by
  unfold sqlStart
  rw [h]
  split
  · exact ⟨rfl, rfl⟩
  · dsimp only
    split <;> exact ⟨rfl, rfl⟩

/-- **What has been compiled before does not show in a round, and how connections answer shows only
where a table is polled for the first time.** -/
theorem alike_step {g g' : Setting} (token perRow : Bool) {s : Stream}
    (h : s.firstPolls token perRow = [] ∨ g.behavior = g'.behavior) :
    (step g token s).Alike (step g' token s) := by
  induction s generalizing perRow with
  | counting counter inner ih =>
      obtain ⟨hanswer, hnext⟩ := ih perRow h
      exact ⟨hanswer, congrArg (Stream.counting counter) hnext⟩
  | cancellable inner ih =>
      cases token with
      | true => exact ⟨rfl, rfl⟩
      | false => exact alike_around release inner (ih perRow h)
  | filterIdle input p =>
      obtain ⟨result, events, events', hg, hg'⟩ := compile_agree g g' p 1
      rw [step, step, hg, hg']
      cases token <;> cases result <;> exact ⟨rfl, rfl⟩
  | filterOpen c input ih =>
      cases token with
      | true => exact ⟨rfl, rfl⟩
      | false => exact alike_filterNext c (ih false h)
  | projectIdle input e =>
      obtain ⟨result, events, events', hg, hg'⟩ := compile_agree g g' e 1
      rw [step, step, hg, hg']
      cases token <;> cases result <;> exact ⟨rfl, rfl⟩
  | projectOpen c input ih =>
      cases token with
      | true => exact ⟨rfl, rfl⟩
      | false => exact alike_projectNext c (ih false h)
  | joinIdle outer inner condition combine =>
      obtain ⟨result, events, events', hg, hg'⟩ := compileBoth_agree g g' condition combine 2
      rw [step, step, hg, hg']
      cases token <;> cases result <;> exact ⟨rfl, rfl⟩
  | joinOuter inner c d outer ih =>
      cases token with
      | true => exact ⟨rfl, rfl⟩
      | false => exact alike_joinOuterNext inner c d (ih false h)
  | joinInner inner c d outer row current _ ih =>
      cases token with
      | true => exact ⟨rfl, rfl⟩
      | false => exact alike_joinInnerNext inner c d outer row (ih true h)
  | sqlIdle q =>
      rcases h with h | h
      · cases h
      · exact alike_sqlStart h q
  | values rest => cases rest <;> exact ⟨rfl, rfl⟩
  | failing e => cases e <;> exact ⟨rfl, rfl⟩
  | sqlExecuting columns connection delay reply =>
      rcases delay with _ | delay
      · cases reply <;> exact ⟨rfl, rfl⟩
      · exact ⟨rfl, rfl⟩
  | _ => exact ⟨rfl, rfl⟩

/-! ## Polls and schedules -/

/-- The same holds of a poll. -/
theorem poll_alike (token : Bool) (s : Stream) (g : Setting) :
    ∀ g' : Setting, polledFirst g token s = [] ∨ g.behavior = g'.behavior →
      (poll g token s).answer = (poll g' token s).answer ∧
        (poll g token s).next = (poll g' token s).next := by
  fun_induction poll g token s with
  | case1 g s answer next events hs =>
      intro g' h
      rw [polledFirst_of_step_some hs] at h
      have hround := alike_step token false h
      rw [hs] at hround
      rw [poll_of_step_some hround.eq]
      exact ⟨rfl, rfl⟩
  | case2 g s next events hs rest ih =>
      intro g' h
      rw [polledFirst_of_step_none hs, List.append_eq_nil_iff] at h
      have hround := alike_step token false (h.imp_left And.left)
      rw [hs] at hround
      rw [poll_of_step_none hround.eq]
      -- what the round has compiled is in the surroundings of the next one
      apply ih
      rw [Setting.behavior_recordAll, Setting.behavior_recordAll]
      exact h.imp_left And.right

/-- Two schedules in which every poll sees the same give the same answers. -/
theorem pollAll_alike {first second : List Occasion}
    (h : first.map Occasion.seen = second.map Occasion.seen) (s : Stream) :
    (s.pollAll first).answers = (s.pollAll second).answers ∧
      (s.pollAll first).next = (s.pollAll second).next := by
  induction first generalizing second s with
  | nil =>
      rw [List.map_nil, eq_comm, List.map_eq_nil_iff] at h
      rw [h]
      exact ⟨rfl, rfl⟩
  | cons o rest ih =>
      obtain ⟨o', rest', rfl, ho, hrest⟩ := List.map_eq_cons_iff.mp h.symm
      rw [Occasion.seen, Occasion.seen, Prod.mk.injEq] at ho
      obtain ⟨hanswer, hnext⟩ := poll_alike o'.cancelled s o'.setting o.setting (.inr ho.1)
      obtain ⟨hanswers, hlast⟩ := ih hrest.symm (poll o.setting o.cancelled s).next
      have hcancelled : o'.cancelled = o.cancelled := ho.2
      rw [hcancelled] at hanswer hnext
      rw [pollAll, pollAll, hcancelled, hnext, hanswer]
      exact ⟨congrArg (List.cons _) hanswers, hlast⟩

end Stream

end RowQuery
