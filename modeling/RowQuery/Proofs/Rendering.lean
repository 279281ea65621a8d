import RowQuery.Proofs.Binding
import RowQuery.Sql.Predicate

set_option autoImplicit false

/-! # Rendering with stacks and by recursion

`Expr.toSql` renders an expression with explicit stacks, `Expr.render` by recursion. The two agree
(`toSql_eq_render`), because a visit on top of any tasks, over any operands, leaves its own
fragments on top of those operands and goes on with those tasks (`perform_visit`): no task is
skipped, no operand is missing, and one list of fragments is left in the end.

What a failed rendering leaves behind is said over the nodes of the expression in the order in which
they are visited. The first node that has no text fails, with its own error, and the binder holds
what the nodes before it have bound (`render_fst`, `render_snd`).
-/

namespace RowQuery

namespace Expr

/-! ## The stacks -/

theorem join_joinFragments (sign : String) (left right : List String) :
    String.join (joinFragments sign left right)
      = "(" ++ String.join left ++ sign ++ String.join right ++ ")" := by
  have hopen : joinFragments sign left right = ["("] ++ left ++ [sign] ++ right ++ [")"] := by
    simp [joinFragments]
  rw [hopen]
  simp only [String.join_append]
  rfl

/-- What a visit comes to, on top of any tasks and over any operands, where the expression renders
as `result`. -/
def VisitsTo (d : Dialect) (e : Expr) (b : Binder) :
    Except RenderError String × Binder → Prop
  | (.ok text, after) =>
    ∃ fragments, String.join fragments = text ∧ ∀ tasks stack,
      perform d (.visit e :: tasks) stack b = perform d tasks (fragments :: stack) after
  | (.error err, after) =>
    ∀ tasks stack, perform d (.visit e :: tasks) stack b = (.error err, after)

theorem perform_visit (d : Dialect) (e : Expr) (b : Binder) : VisitsTo d e b (render d e b) := by
  -- tasks and stack stay arbitrary: operands are visited on top of more of both
  fun_induction render d e b with
  | case1 v b =>
      refine ⟨[(b.define v).1], by simp, ?_⟩
      intro tasks stack
      rw [perform]
  | case2 base name b text htext =>
      refine ⟨[text], by simp, ?_⟩
      intro tasks stack
      rw [perform, htext]
  | case3 base name b htext =>
      intro tasks stack
      rw [perform, htext]
  | case4 op left right b hsign =>
      intro tasks stack
      rw [perform, hsign]
  | case5 op left right b sign hsign err after hleft ih =>
      rw [hleft] at ih
      intro tasks stack
      rw [perform, hsign]
      -- the right operand and the operator stay on the stack of tasks
      exact ih _ _
  | case6 op left right b sign hsign l between hleft err after hright ihLeft ihRight =>
      rw [hleft] at ihLeft
      rw [hright] at ihRight
      obtain ⟨lefts, -, hlefts⟩ := ihLeft
      intro tasks stack
      rw [perform, hsign]
      show perform d (.visit left :: _) stack b = _
      rw [hlefts]
      exact ihRight _ _
  | case7 op left right b sign hsign l between hleft r after hright ihLeft ihRight =>
      rw [hleft] at ihLeft
      rw [hright] at ihRight
      obtain ⟨lefts, hl, hlefts⟩ := ihLeft
      obtain ⟨rights, hr, hrights⟩ := ihRight
      refine ⟨joinFragments sign lefts rights, ?_, ?_⟩
      · rw [join_joinFragments, hl, hr]
      · intro tasks stack
        rw [perform, hsign]
        show perform d (.visit left :: .visit right :: .combine sign :: tasks) stack b = _
        -- both operands are on the stack when their operator comes up
        rw [hlefts, hrights, perform]
  | case8 i b =>
      intro tasks stack
      rw [perform]
  | case9 items b =>
      intro tasks stack
      rw [perform]

/-- Rendering with stacks is rendering by recursion. -/
theorem toSql_eq_render (d : Dialect) (e : Expr) (b : Binder) : e.toSql d b = e.render d b := by
  have hvisit := perform_visit d e b
  unfold toSql
  -- one task, and no operand but the one that the visit leaves
  rcases hrender : render d e b with ⟨err | text, after⟩
  · rw [hrender] at hvisit
    rw [hvisit]
  · rw [hrender] at hvisit
    obtain ⟨fragments, htext, hperform⟩ := hvisit
    rw [hperform, perform]
    show (Except.ok (String.join fragments), after) = _
    rw [htext]

/-! ## The nodes in the order of visiting -/

/-- The nodes that are visited, an operator before its operands and the left one before the right
one. A member access and a tuple are visited as a whole. -/
def nodes : Expr → List Expr
  | .binary op left right => .binary op left right :: (nodes left ++ nodes right)
  | e => [e]

/-- Why a node has no text, whatever its operands are. -/
def offence? : Expr → Option RenderError
  | .constant _ => none
  | .argument i => some (.unsupportedNode (.argument i))
  | .member base name =>
    match memberPath? (.member base name) with
    | some (0, _) => none
    | _ => some (.unsupportedNode (.member base name))
  | .binary op _ _ => if op = .mod then some (.unsupportedOperator op) else none
  | .tuple items => some (.unsupportedNode (.tuple items))

/-- The first offence on the way. -/
def firstOffence? (visited : List Expr) : Option RenderError := visited.findSome? offence?

/-- The nodes that come before the first offence. -/
def untilOffence (visited : List Expr) : List Expr := visited.takeWhile (·.offence?.isNone)

/-- The value of a constant. -/
def value? : Expr → Option Value
  | .constant v => some v
  | _ => none

/-- The constants among some nodes. -/
def constantsOf (visited : List Expr) : List Value := visited.filterMap value?

theorem constantsOf_append (l m : List Expr) :
    constantsOf (l ++ m) = constantsOf l ++ constantsOf m := List.filterMap_append

theorem untilOffence_of_none {l : List Expr} (h : firstOffence? l = none) (m : List Expr) :
    untilOffence (l ++ m) = l ++ untilOffence m := by
  apply List.takeWhile_append_of_pos
  intro e he
  rw [List.findSome?_eq_none_iff.mp h e he]
  rfl

theorem untilOffence_of_some {l : List Expr} {err : RenderError} (h : firstOffence? l = some err)
    (m : List Expr) : untilOffence (l ++ m) = untilOffence l := by
  induction l with
  | nil => cases h
  | cons e rest ih =>
      unfold untilOffence at ih ⊢
      rw [List.cons_append, List.takeWhile_cons, List.takeWhile_cons]
      cases he : e.offence? with
      | some err' => rfl
      | none =>
          have hrest : firstOffence? rest = some err := by
            simpa [firstOffence?, List.findSome?_cons, he] using h
          rw [if_pos Option.isNone_none, if_pos Option.isNone_none, ih hrest]

/-- An operator has a sign unless it is the remainder. -/
theorem sql?_eq_none_iff {op : BinaryOperator} : op.sql? = none ↔ op = .mod := by
  cases op <;> decide

/-- How a rendering relates to the nodes: it fails where one of them offends, with the first
offence, and binds the constants of the nodes before that one, or of all. -/
def Explains (e : Expr) (b : Binder) : Except RenderError String × Binder → Prop
  | (.ok _, after) => firstOffence? e.nodes = none ∧ after = (b.defineAll (constantsOf e.nodes)).2
  | (.error err, after) =>
    firstOffence? e.nodes = some err ∧ after = (b.defineAll (constantsOf (untilOffence e.nodes))).2

/-- A member access has a text in every dialect or in none. -/
theorem offence?_member (d : Dialect) (base : Expr) (name : String) :
    (Expr.member base name).offence?
      = if (columnText? d (.member base name)).isSome then none
        else some (.unsupportedNode (.member base name)) := by
  rw [offence?, columnText?]
  rcases memberPath? (.member base name) with _ | ⟨_ | i, names⟩ <;> rfl

/-- An operator with a sign does not offend, so its operands decide, the left one first. -/
theorem firstOffence?_binary {op : BinaryOperator} {sign : String} (h : op.sql? = some sign)
    (left right : Expr) :
    firstOffence? (nodes (.binary op left right))
        = (firstOffence? left.nodes).or (firstOffence? right.nodes) ∧
      untilOffence (nodes (.binary op left right))
        = .binary op left right :: untilOffence (left.nodes ++ right.nodes) := by
  have hop : op ≠ .mod := by
    intro hmod
    rw [sql?_eq_none_iff.mpr hmod] at h
    cases h
  have hnone : (Expr.binary op left right).offence? = none := if_neg hop
  constructor
  · rw [nodes, firstOffence?, List.findSome?_cons, hnone]
    exact List.findSome?_append
  · rw [nodes, untilOffence, List.takeWhile_cons, hnone]
    rfl

theorem explains_render (d : Dialect) (e : Expr) (b : Binder) : Explains e b (render d e b) := by
  fun_induction render d e b with
  | case1 v b => exact ⟨rfl, rfl⟩
  | case2 base name b text htext =>
      have hnone : (Expr.member base name).offence? = none := by
        rw [offence?_member d, htext]
        rfl
      refine ⟨?_, rfl⟩
      show firstOffence? [Expr.member base name] = none
      rw [firstOffence?, List.findSome?_cons, hnone]
      rfl
  | case3 base name b htext =>
      have hsome : (Expr.member base name).offence?
          = some (.unsupportedNode (.member base name)) := by
        rw [offence?_member d, htext]
        rfl
      constructor
      · show firstOffence? [Expr.member base name] = _
        rw [firstOffence?, List.findSome?_cons, hsome]
      · show b = (b.defineAll (constantsOf (untilOffence [Expr.member base name]))).2
        rw [untilOffence, List.takeWhile_cons, hsome]
        rfl
  | case4 op left right b hsign =>
      -- the operator fails before its operands are looked at
      have hmod : op = .mod := sql?_eq_none_iff.mp hsign
      subst hmod
      exact ⟨rfl, rfl⟩
  | case5 op left right b sign hsign err after hleft ih =>
      rw [hleft] at ih
      obtain ⟨hfirst, hafter⟩ := ih
      obtain ⟨hoffence, huntil⟩ := firstOffence?_binary hsign left right
      -- what offends in the left operand hides all of the right one
      constructor
      · rw [hoffence, hfirst]
        rfl
      · rw [huntil, untilOffence_of_some hfirst]
        exact hafter
  | case6 op left right b sign hsign l between hleft err after hright ihLeft ihRight =>
      rw [hleft] at ihLeft
      rw [hright] at ihRight
      obtain ⟨hnone, hbetween⟩ := ihLeft
      obtain ⟨hfirst, hafter⟩ := ihRight
      obtain ⟨hoffence, huntil⟩ := firstOffence?_binary hsign left right
      constructor
      · rw [hoffence, hnone, hfirst]
        rfl
      · -- the constants of the left operand are bound before those of the right one
        rw [huntil, untilOffence_of_none hnone]
        show after = (b.defineAll (constantsOf (left.nodes ++ untilOffence right.nodes))).2
        rw [constantsOf_append, Binder.defineAll_append, ← hbetween, hafter]
  | case7 op left right b sign hsign l between hleft r after hright ihLeft ihRight =>
      rw [hleft] at ihLeft
      rw [hright] at ihRight
      obtain ⟨hnoneLeft, hbetween⟩ := ihLeft
      obtain ⟨hnoneRight, hafter⟩ := ihRight
      constructor
      · rw [(firstOffence?_binary hsign left right).1, hnoneLeft, hnoneRight]
        rfl
      · show after = (b.defineAll (constantsOf (left.nodes ++ right.nodes))).2
        rw [constantsOf_append, Binder.defineAll_append, ← hbetween, hafter]
  | case8 i b =>
      exact ⟨rfl, rfl⟩
  | case9 items b =>
      exact ⟨rfl, rfl⟩

/-- What fails is the first offence. -/
theorem render_fst (d : Dialect) (e : Expr) (b : Binder) (err : RenderError) :
    (render d e b).1 = .error err ↔ firstOffence? e.nodes = some err := by
  have h := explains_render d e b
  rcases hrender : render d e b with ⟨err' | text, after⟩
  · rw [hrender] at h
    rw [h.1, Option.some.injEq, Except.error.injEq]
  · rw [hrender] at h
    rw [h.1]
    simp

/-- What is bound are the constants before the first offence. -/
theorem render_snd (d : Dialect) (e : Expr) (b : Binder) :
    (render d e b).2 = (b.defineAll (constantsOf (untilOffence e.nodes))).2 := by
  have h := explains_render d e b
  rcases hrender : render d e b with ⟨err | text, after⟩
  · rw [hrender] at h
    exact h.2
  · rw [hrender] at h
    have huntil : untilOffence e.nodes = e.nodes := by
      have := untilOffence_of_none h.1 []
      simpa [untilOffence] using this
    rw [huntil]
    exact h.2

/-- A node may offend, but never by what lies on the stacks. -/
theorem firstOffence?_ne_internal (visited : List Expr) (text : String) :
    firstOffence? visited ≠ some (.internal text) := by
  intro h
  obtain ⟨e, -, he⟩ := List.exists_of_findSome?_eq_some h
  cases e with
  | constant v => cases he
  | argument i => cases he
  | member base name =>
      rw [offence?] at he
      split at he <;> cases he
  | binary op left right =>
      rw [offence?] at he
      split at he <;> cases he
  | tuple items => cases he

/-- A member access has a text exactly if it follows names from argument 0. -/
theorem render_member (d : Dialect) (base : Expr) (name : String) (b : Binder) :
    (∃ names, Expr.member base name = members (.argument 0) names ∧
      render d (.member base name) b = (.ok (d.quotePath names), b)) ∨
    ((∀ names, Expr.member base name ≠ members (.argument 0) names) ∧
      render d (.member base name) b = (.error (.unsupportedNode (.member base name)), b)) := by
  by_cases hpath : ∃ names, memberPath? (.member base name) = some (0, names)
  · obtain ⟨names, hnames⟩ := hpath
    refine .inl ⟨names, eq_members_of_memberPath? _ hnames, ?_⟩
    rw [render, columnText?, hnames]
    rfl
  · refine .inr ⟨?_, ?_⟩
    · intro names heq
      apply hpath
      exact ⟨names, by rw [heq, memberPath?_members]⟩
    · rw [render, columnText?]
      rcases hroot : memberPath? (.member base name) with _ | ⟨_ | i, names⟩
      · rfl
      · exact absurd ⟨names, hroot⟩ hpath
      · rfl

/-- **Rendering goes from left to right and stops at the first offence.** With stacks or by
recursion, it gives the same text or error and the same binder. It fails exactly if a node offends,
with the first offence in the order of visiting; what was bound before stays in front, and behind it
stands what the constants before that node have bound. The stacks always fit together. -/
theorem toSql_left_to_right (d : Dialect) (e : Expr) (b : Binder) :
    e.toSql d b = e.render d b ∧
    (∀ err, (e.toSql d b).1 = .error err ↔ firstOffence? e.nodes = some err) ∧
    (e.toSql d b).2 = (b.defineAll (constantsOf (untilOffence e.nodes))).2 ∧
    b.parameters <+: (e.toSql d b).2.parameters ∧
    (∀ text, (e.toSql d b).1 ≠ .error (.internal text)) ∧
    (∀ base name, e = .member base name →
      (∃ names, e = members (.argument 0) names ∧ e.toSql d b = (.ok (d.quotePath names), b)) ∨
      ((∀ names, e ≠ members (.argument 0) names) ∧
        e.toSql d b = (.error (.unsupportedNode e), b))) := by
  rw [toSql_eq_render]
  refine ⟨rfl, render_fst d e b, render_snd d e b, ?_, ?_, ?_⟩
  · rw [render_snd]
    exact b.defineAll_prefix _
  · intro text h
    exact firstOffence?_ne_internal e.nodes text ((render_fst d e b _).mp h)
  · intro base name he
    subst he
    exact render_member d base name b

end Expr

end RowQuery
