import Mathlib.Data.Fintype.Option
import RowQuery.Proofs.Compilation
import RowQuery.Proofs.Conjunction

set_option autoImplicit false

/-! # Unknowns never decide

A null stands for a value that is not known. One value is *below* another if the second says all
that the first says and perhaps more: nulls have been filled in, at the top or anywhere inside
(`Value.Below`). Expressions respect this order (`Expr.eval_below`): with more known about the
arguments, an expression that has a value says no less than before. Only a null can change, so what
has been accepted on a row with nulls stays accepted however they are filled in.

Member access and tuples go along with the order by its definition. An operator that lets nulls
through has operands without nulls or gives a null. The two logical operators decide without one
of the operands only where it does not matter (`BinaryOperator.Truth.below_and`).
-/

namespace RowQuery

open BinaryOperator (Truth)

/-! ## The order of values by what is known -/

namespace Value

/-- One value says no more than another. -/
inductive Below : Value → Value → Prop
  | null (w : Value) : Below .null w
  | refl (v : Value) : Below v v
  | tuple {vs ws : List Value} (h : List.Forall₂ Below vs ws) : Below (.tuple vs) (.tuple ws)
  | struct {fs gs : Fields} (hnames : fs.names = gs.names)
    (h : List.Forall₂ Below (fs.map (·.2)) (gs.map (·.2))) : Below (.struct fs) (.struct gs)

/-- A value that says all there is to say: no null, and nothing inside that could be one. -/
def isScalar : Value → Bool
  | .boolean _ | .int64 _ | .float64 _ | .utf8 _ => true
  | _ => false

theorem Below.eq_of_isScalar {v w : Value} (h : Below v w) (hv : v.isScalar = true) : w = v := by
  cases h with
  | refl => rfl
  | null | tuple | struct => cases hv

/-- Elements at one position. -/
theorem below_of_getElem? {vs ws : List Value} (h : List.Forall₂ Below vs ws) {i : Nat}
    {v w : Value} (hv : vs[i]? = some v) (hw : ws[i]? = some w) : Below v w := by
  induction h generalizing i with
  | nil => cases hv
  | cons hhead _ ih =>
      cases i with
      | zero =>
          cases hv
          cases hw
          exact hhead
      | succ i => exact ih hv hw

/-- The first fields of one name. -/
theorem below_of_get? {fs gs : Fields} (hnames : fs.names = gs.names)
    (h : List.Forall₂ Below (fs.map (·.2)) (gs.map (·.2))) {name : String} {v w : Value}
    (hv : fs.get? name = some v) (hw : gs.get? name = some w) : Below v w := by
  induction fs generalizing gs with
  | nil => cases hv
  | cons f fs ih =>
      cases gs with
      | nil => cases hw
      | cons g gs =>
          obtain ⟨m, v'⟩ := f
          obtain ⟨n, w'⟩ := g
          obtain ⟨rfl, hrest⟩ : m = n ∧ Fields.names fs = Fields.names gs :=
            List.cons.injEq .. ▸ hnames
          cases h with
          | cons hhead htail =>
              -- either both are found here or both further on
              rw [Fields.get?] at hv hw
              by_cases hm : m = name
              · rw [if_pos hm, Option.some.injEq] at hv hw
                rw [← hv, ← hw]
                exact hhead
              · rw [if_neg hm] at hv hw
                exact ih hrest htail hv hw

/-- Members of one name. -/
theorem Below.member {v w : Value} (h : Below v w) {name : String} {x y : Value}
    (hx : v.member name = .ok x) (hy : w.member name = .ok y) : Below x y := by
  cases h with
  | null w => cases hx
  | refl v =>
      rw [hx, Except.ok.injEq] at hy
      rw [hy]
      exact .refl y
  | tuple h =>
      obtain ⟨i, hi, hv⟩ := member_tuple_eq_ok_iff.mp hx
      obtain ⟨j, hj, hw⟩ := member_tuple_eq_ok_iff.mp hy
      obtain rfl : i = j := Option.some.inj (hi.symm.trans hj)
      exact below_of_getElem? h hv hw
  | struct hnames h =>
      exact below_of_get? hnames h (member_struct_eq_ok_iff.mp hx) (member_struct_eq_ok_iff.mp hy)

end Value

/-! ## Operators -/

namespace BinaryOperator

/-- A truth value below another is unknown, or it is the other. -/
theorem Truth.below_iff (a b : Truth) :
    Value.Below a.toValue b.toValue ↔ a = none ∨ a = b := by
  constructor
  · intro h
    rcases a with _ | a
    · exact .inl rfl
    · exact .inr (Truth.toValue_injective (h.eq_of_isScalar rfl).symm)
  · rintro (rfl | rfl)
    · exact .null _
    · exact .refl _

/-- A logical operator decides because of one side, or both sides are known. -/
theorem Truth.below_joined (op : BinaryOperator) {a b c d : Truth} (ha : a = none ∨ a = c)
    (hb : b = none ∨ b = d) :
    (if op = .and then Truth.and a b else Truth.or a b) = none ∨
      (if op = .and then Truth.and a b else Truth.or a b)
        = if op = .and then Truth.and c d else Truth.or c d := by
  by_cases hop : op = .and
  · rw [if_pos hop, if_pos hop]
    revert a b c d
    decide
  · rw [if_neg hop, if_neg hop]
    revert a b c d
    decide

/-- Only scalars have an order. -/
theorem isScalar_of_order? {v w : Value} {o : Ordering} (h : order? v w = some o) :
    v.isScalar = true ∧ w.isScalar = true := by
  revert h
  fun_cases order? v w with
  | case7 => exact nofun
  | _ => exact fun _ => ⟨rfl, rfl⟩

/-- Only numbers are computed with. -/
theorem isScalar_of_computed {op : BinaryOperator} {v w x : Value}
    (h : op.computed v w = .ok x) : v.isScalar = true ∧ w.isScalar = true := by
  revert h
  fun_cases computed op v w with
  | case5 => exact nofun
  | _ => exact fun _ => ⟨rfl, rfl⟩

/-- An operator that lets nulls through gives a null, unless both of its operands are scalars. -/
theorem eq_null_or_isScalar_of_eval {op : BinaryOperator} (hop : op.isLogical = false)
    {v w x : Value} (h : op.eval v w = .ok x) :
    x = .null ∨ (v.isScalar = true ∧ w.isScalar = true) := by
  rw [eval, hop, if_neg Bool.false_ne_true] at h
  by_cases hnull : (v.isNull || w.isNull) = true
  · rw [if_pos hnull, Except.ok.injEq] at h
    exact .inl h.symm
  · rw [if_neg hnull] at h
    refine .inr ?_
    by_cases hcomparison : op.isComparison = true
    · rw [if_pos hcomparison, compared] at h
      cases horder : order? v w with
      | none =>
          rw [horder] at h
          cases h
      | some o => exact isScalar_of_order? horder
    · rw [if_neg hcomparison] at h
      exact isScalar_of_computed h

/-- **An operator respects what is known.** -/
theorem eval_below (op : BinaryOperator) {v v' w w' x y : Value} (hv : v.Below v')
    (hw : w.Below w') (hx : op.eval v w = .ok x) (hy : op.eval v' w' = .ok y) : x.Below y := by
  cases hop : op.isLogical with
  | false =>
      rcases eq_null_or_isScalar_of_eval hop hx with rfl | ⟨hv', hw'⟩
      · exact .null y
      · -- what is known of scalars cannot grow
        rw [hv.eq_of_isScalar hv', hw.eq_of_isScalar hw', hx, Except.ok.injEq] at hy
        rw [hy]
        exact .refl y
  | true =>
      rw [eval, hop, if_pos rfl] at hx hy
      obtain ⟨a, b, rfl, rfl, rfl⟩ := (joined_eq_ok_iff op v w x).mp hx
      obtain ⟨c, d, rfl, rfl, rfl⟩ := (joined_eq_ok_iff op v' w' y).mp hy
      rw [Truth.below_iff] at hv hw ⊢
      exact Truth.below_joined op hv hw

end BinaryOperator

/-! ## Expressions -/

namespace Expr

variable {row row' : List Value}

mutual

/-- **An expression respects what is known.** -/
theorem eval_below (h : List.Forall₂ Value.Below row row') (e : Expr) {v w : Value}
    (hv : e.eval row = .ok v) (hw : e.eval row' = .ok w) : v.Below w := by
  match e with
  | .constant c =>
      cases hv
      cases hw
      exact .refl _
  | .argument i =>
      exact Value.below_of_getElem? h (eval_argument_eq_ok_iff.mp hv)
        (eval_argument_eq_ok_iff.mp hw)
  | .member base name =>
      rw [eval] at hv hw
      obtain ⟨x, hx, hv⟩ := bind_eq_ok_iff.mp hv
      obtain ⟨y, hy, hw⟩ := bind_eq_ok_iff.mp hw
      exact (eval_below h base hx hy).member hv hw
  | .binary op left right =>
      rw [eval] at hv hw
      obtain ⟨x, hx, hv⟩ := bind_eq_ok_iff.mp hv
      obtain ⟨x', hx', hv⟩ := bind_eq_ok_iff.mp hv
      obtain ⟨y, hy, hw⟩ := bind_eq_ok_iff.mp hw
      obtain ⟨y', hy', hw⟩ := bind_eq_ok_iff.mp hw
      exact op.eval_below (eval_below h left hx hy) (eval_below h right hx' hy') hv hw
  | .tuple items =>
      rw [eval] at hv hw
      obtain ⟨vs, hvs, hv⟩ := bind_eq_ok_iff.mp hv
      obtain ⟨ws, hws, hw⟩ := bind_eq_ok_iff.mp hw
      cases hv
      cases hw
      exact .tuple (evalAll_below h items hvs hws)

theorem evalAll_below (h : List.Forall₂ Value.Below row row') (items : List Expr)
    {vs ws : List Value} (hvs : evalAll row items = .ok vs) (hws : evalAll row' items = .ok ws) :
    List.Forall₂ Value.Below vs ws := by
  match items with
  | [] =>
      cases hvs
      cases hws
      exact .nil
  | e :: rest =>
      rw [evalAll] at hvs hws
      obtain ⟨v, hv, hvs⟩ := bind_eq_ok_iff.mp hvs
      obtain ⟨vs', hvs', hvs⟩ := bind_eq_ok_iff.mp hvs
      obtain ⟨w, hw, hws⟩ := bind_eq_ok_iff.mp hws
      obtain ⟨ws', hws', hws⟩ := bind_eq_ok_iff.mp hws
      cases hvs
      cases hws
      exact .cons (eval_below h e hv hw) (evalAll_below h rest hvs' hws')

end

end Expr

/-- The values of a compiled expression on two rows of which the second says more. -/
theorem CompiledExpr.eval_below {e : Expr} {arity : Nat} {c : CompiledExpr}
    (hc : compile e arity = .ok c) {row row' : List Value}
    (h : List.Forall₂ Value.Below row row') {v w : Value} (hv : c.eval row = .ok v)
    (hw : c.eval row' = .ok w) : v.Below w := by
  by_cases hrow : row.length = arity
  · have hrow' : row'.length = arity := h.length_eq ▸ hrow
    rw [eval_of_compile hc hrow] at hv
    rw [eval_of_compile hc hrow'] at hw
    exact Expr.eval_below h e hv hw
  · obtain rfl : c.arity = arity := arity_of_compile hc
    rw [eval, dif_neg hrow] at hv
    cases hv

/-- **Unknowns never decide.** Where an expression has a value on a row with nulls and on one in
which they have been filled in, the second value says no less than the first. So a condition that
holds of the first row holds of the second, and a condition that is false on the first is false on
the second, provided that it can be evaluated there at all. -/
theorem unknowns_never_decide {e : Expr} {arity : Nat} {c : CompiledExpr}
    (hc : CompiledExpr.compile e arity = .ok c) {row row' : List Value}
    (h : List.Forall₂ Value.Below row row') :
    (∀ v w, c.eval row = .ok v → c.eval row' = .ok w → v.Below w) ∧
    (c.evalPredicate row = .ok true → (∃ w, c.eval row' = .ok w) →
      c.evalPredicate row' = .ok true) ∧
    (c.eval row = .ok (.boolean false) → (∃ w, c.eval row' = .ok w) →
      c.eval row' = .ok (.boolean false)) := by
  -- a Boolean says all there is to say
  have hboolean : ∀ b, c.eval row = .ok (.boolean b) → (∃ w, c.eval row' = .ok w) →
      c.eval row' = .ok (.boolean b) := by
    rintro b hb ⟨w, hw⟩
    rw [hw, (CompiledExpr.eval_below hc h hb hw).eq_of_isScalar rfl]
  refine ⟨fun v w => CompiledExpr.eval_below hc h, ?_, hboolean false⟩
  intro haccepted hdefined
  obtain ⟨a, ha, htrue⟩ := (c.evalPredicate_eq_ok_iff row true).mp haccepted
  rcases a with _ | _ | _
  · cases htrue
  · cases htrue
  · exact (c.evalPredicate_eq_ok_iff row' true).mpr ⟨some true, hboolean true ha hdefined, rfl⟩

/-- A join condition that holds because of the inner element, whatever there is to know of the outer
one and of the rest. -/
theorem unknowns_never_decide_joined :
    ∃ c, CompiledExpr.compile (.binary .or (.column "x") (.innerColumn "y")) 2 = .ok c ∧
      List.Forall₂ Value.Below
        [.struct [("x", .null)], .struct [("p", .tuple [.null, .int64 3]), ("y", .boolean true)]]
        [.struct [("x", .boolean false)],
          .struct [("p", .tuple [.utf8 "q", .int64 3]), ("y", .boolean true)]] ∧
      c.evalPredicate
          [.struct [("x", .null)], .struct [("p", .tuple [.null, .int64 3]), ("y", .boolean true)]]
        = .ok true ∧
      c.evalPredicate
          [.struct [("x", .boolean false)],
            .struct [("p", .tuple [.utf8 "q", .int64 3]), ("y", .boolean true)]]
        = .ok true := by
  have hbelow : List.Forall₂ Value.Below
      [.struct [("x", .null)], .struct [("p", .tuple [.null, .int64 3]), ("y", .boolean true)]]
      [.struct [("x", .boolean false)],
        .struct [("p", .tuple [.utf8 "q", .int64 3]), ("y", .boolean true)]] := by
    refine .cons (.struct rfl (.cons (.null _) .nil)) (.cons (.struct rfl ?_) .nil)
    exact .cons (.tuple (.cons (.null _) (.cons (.refl _) .nil))) (.cons (.refl _) .nil)
  have hcompile : CompiledExpr.compile (.binary .or (.column "x") (.innerColumn "y")) 2
      = .ok ⟨2, .binary .or (.path 0 ["x"]) (.path 1 ["y"])⟩ := rfl
  exact ⟨_, hcompile, hbelow, rfl, (unknowns_never_decide hcompile hbelow).2.1 rfl ⟨_, rfl⟩⟩

end RowQuery
