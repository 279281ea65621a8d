import RowQuery.Expr.Compiled
import RowQuery.Expr.Eval

set_option autoImplicit false

/-! # Compiled expressions

An expression compiles for a number of arguments unless it refers to one that will not be there;
then the leftmost such reference is what compiling reports. Code that has been compiled gives on
every row of arguments what the expression gives by recursion (`Expr.eval`), errors included. The
one place where the two go different ways is a member path, which code walks from its argument at
once and the recursion from name to name (`eval_of_memberPath?`).

Evaluation rests on distinctions that have been made before: a comparison is asked how its operands
are ordered only once it is known to be a comparison, and positions are looked up only among
arguments that have been counted. A *guarded* evaluation takes none of this on trust. It comes to
nothing (`Guarded.outOfReach`) where such a distinction would fail, and it never does: it comes to
what the evaluation itself comes to (`CompiledExpr.guardedEval_eq`).
-/

namespace RowQuery

namespace Expr

mutual

/-- The arguments that an expression refers to, from left to right. -/
def arguments : Expr → List Nat
  | .constant _ => []
  | .argument i => [i]
  | .member base _ => arguments base
  | .binary _ left right => arguments left ++ arguments right
  | .tuple items => argumentsAll items

/-- The arguments that the items of a tuple refer to, in order. -/
def argumentsAll : List Expr → List Nat
  | [] => []
  | e :: rest => arguments e ++ argumentsAll rest

end

/-! ## Member paths -/

/-- A member path refers to the argument at its root. -/
theorem arguments_of_memberPath? {e : Expr} {i : Nat} {names : List String}
    (h : memberPath? e = some (i, names)) : e.arguments = [i] := by
  rw [eq_members_of_memberPath? e h, members]
  generalize hbase : Expr.argument i = base
  have hroot : base.arguments = [i] := by rw [← hbase, arguments]
  clear h hbase
  induction names generalizing base with
  | nil => exact hroot
  | cons name rest ih => exact ih (.member base name) hroot

/-- Walking on from the end of a path. -/
theorem memberAt_append (names : List String) (name : String) (v : Value) :
    v.memberAt (names ++ [name]) = (do (← v.memberAt names).member name) := by
  induction names generalizing v with
  | nil =>
      show (do Value.memberAt [] (← v.member name)) = v.member name
      cases v.member name <;> rfl
  | cons n rest ih =>
      rw [List.cons_append, Value.memberAt, Value.memberAt]
      cases v.member n with
      | error e => rfl
      | ok w => exact ih w

/-- By recursion, a member path evaluates to what is at its end. -/
theorem eval_of_memberPath? {e : Expr} {i : Nat} {names : List String}
    (h : memberPath? e = some (i, names)) {row : List Value} {v : Value} (hv : row[i]? = some v) :
    e.eval row = v.memberAt names := by
  match e with
  | .argument j =>
      cases h
      rw [eval, hv]
      rfl
  | .member base name =>
      simp only [memberPath?, Option.map_eq_some_iff, Prod.mk.injEq] at h
      obtain ⟨⟨j, before⟩, hbase, rfl, rfl⟩ := h
      rw [eval, eval_of_memberPath? hbase hv, memberAt_append]
  | .constant _ | .binary .. | .tuple _ => cases h

end Expr

/-! ## What code means -/

/-- The leftmost of some arguments that will not be there. -/
def unbound? (arity : Nat) (indices : List Nat) : Option Nat := indices.find? (arity ≤ ·)

theorem unbound?_append (arity : Nat) (l m : List Nat) :
    unbound? arity (l ++ m) = (unbound? arity l).or (unbound? arity m) := List.find?_append

theorem unbound?_eq_none_iff {arity : Nat} {indices : List Nat} :
    unbound? arity indices = none ↔ ∀ i ∈ indices, i < arity := by
  simp [unbound?]

namespace Code

variable {arity : Nat} {α β γ δ ε ζ : Type}

/-- What compiling comes to, where `indices` are referred to: the leftmost of them that will not be
there, or code that runs on a row of arguments as `direct` says. -/
def Means (indices : List Nat) (run : Vector Value arity → α → Except EvalError β)
    (direct : List Value → Except EvalError β) : Except EvalError α → Prop
  | .ok code => unbound? arity indices = none ∧ ∀ row, run row code = direct row.toList
  | .error e => ∃ i, unbound? arity indices = some i ∧ e = .unboundArgument i arity

/-- What is made of one piece of code runs as what is made of its value. -/
theorem Means.map {indices : List Nat} {run : Vector Value arity → α → Except EvalError β}
    {direct : List Value → Except EvalError β} {x : Except EvalError α}
    (h : Means indices run direct x) {node : α → γ}
    {runNode : Vector Value arity → γ → Except EvalError δ} {combine : β → Except EvalError δ}
    (hnode : ∀ row a, runNode row (node a) = (do combine (← run row a))) :
    Means indices runNode (fun row => do combine (← direct row)) (do return node (← x)) := by
  cases x with
  | error e => exact h
  | ok a =>
      obtain ⟨hbound, hrun⟩ := h
      refine ⟨hbound, ?_⟩
      intro row
      rw [hnode, hrun]

/-- What is made of two pieces of code runs as what is made of their values, the left one first. -/
theorem Means.both {l m : List Nat} {run : Vector Value arity → α → Except EvalError β}
    {direct : List Value → Except EvalError β} {x : Except EvalError α} (hx : Means l run direct x)
    {run' : Vector Value arity → γ → Except EvalError δ}
    {direct' : List Value → Except EvalError δ} {y : Except EvalError γ}
    (hy : Means m run' direct' y) {node : α → γ → ε}
    {runNode : Vector Value arity → ε → Except EvalError ζ} {combine : β → δ → Except EvalError ζ}
    (hnode : ∀ row a b, runNode row (node a b) = (do combine (← run row a) (← run' row b))) :
    Means (l ++ m) runNode (fun row => do combine (← direct row) (← direct' row))
      (do return node (← x) (← y)) := by
  cases x with
  | error e =>
      -- the second piece is not looked at
      obtain ⟨i, hi, rfl⟩ := hx
      exact ⟨i, by rw [unbound?_append, hi, Option.some_or], rfl⟩
  | ok a =>
      obtain ⟨hbound, hrun⟩ := hx
      cases y with
      | error e =>
          obtain ⟨i, hi, rfl⟩ := hy
          exact ⟨i, by rw [unbound?_append, hbound, Option.none_or, hi], rfl⟩
      | ok b =>
          obtain ⟨hbound', hrun'⟩ := hy
          refine ⟨by rw [unbound?_append, hbound, hbound', Option.none_or], ?_⟩
          intro row
          rw [hnode, hrun, hrun']

/-- A path runs from its argument, if that will be there. -/
theorem means_path? {e : Expr} {i : Nat} {names : List String}
    (h : e.memberPath? = some (i, names)) :
    Means e.arguments run (fun row => e.eval row) (path? arity i names) := by
  rw [Expr.arguments_of_memberPath? h, path?]
  by_cases hi : i < arity
  · rw [dif_pos hi]
    refine ⟨unbound?_eq_none_iff.mpr (by simpa using hi), ?_⟩
    intro row
    have hv : row.toList[i]? = some row[i] := by simp [hi]
    show run row _ = e.eval row.toList
    rw [Expr.eval_of_memberPath? h hv, run]
    rfl
  · rw [dif_neg hi]
    refine ⟨i, ?_, rfl⟩
    rw [unbound?, List.find?_singleton, if_pos (decide_eq_true (Nat.le_of_not_lt hi))]

mutual

/-- **Code runs as its expression evaluates.** -/
theorem means_ofExpr (arity : Nat) (e : Expr) :
    Means e.arguments run (fun row => e.eval row) (ofExpr arity e) := by
  match e with
  | .constant v => exact ⟨rfl, fun row => rfl⟩
  | .argument i =>
      rw [ofExpr]
      exact means_path? rfl
  | .member base name =>
      rw [ofExpr]
      split
      · rename_i i names hpath
        exact means_path? hpath
      · rw [Expr.arguments]
        simp only [Expr.eval]
        exact (means_ofExpr arity base).map (fun row a => by rw [run])
  | .binary op left right =>
      rw [ofExpr, Expr.arguments]
      simp only [Expr.eval]
      exact (means_ofExpr arity left).both (means_ofExpr arity right) (fun row a b => by rw [run])
  | .tuple items =>
      rw [ofExpr, Expr.arguments]
      simp only [Expr.eval]
      exact (means_ofExprs arity items).map (fun row a => by rw [run])

theorem means_ofExprs (arity : Nat) (items : List Expr) :
    Means (Expr.argumentsAll items) runAll (fun row => Expr.evalAll row items)
      (ofExprs arity items) := by
  match items with
  | [] => exact ⟨rfl, fun row => rfl⟩
  | e :: rest =>
      rw [ofExprs, Expr.argumentsAll]
      simp only [Expr.evalAll]
      exact (means_ofExpr arity e).both (means_ofExprs arity rest) (fun row a b => by rw [runAll])

end

end Code

/-! ## Guarded evaluation -/

/-- An evaluation that comes to nothing where a distinction on which it rests has not been made. -/
abbrev Guarded (α : Type) := ExceptT EvalError Option α

namespace Guarded

variable {α β : Type}

/-- A place that is meant to be out of reach. -/
def outOfReach : Guarded α := ExceptT.mk none

/-- Comes to a result, or to an error that is meant to be. -/
def within (x : Except EvalError α) : Guarded α := ExceptT.mk (some x)

/-- What goes on from a result within reach comes to a result within reach. -/
theorem within_bind (x : Except EvalError α) {f : α → Guarded β} {g : α → Except EvalError β}
    (h : ∀ a, f a = within (g a)) : (within x >>= f) = within (x >>= g) := by
  cases x with
  | error e => rfl
  | ok a => exact h a

end Guarded

namespace BinaryOperator

open Guarded

/-- The five operators of arithmetic. -/
def isArithmetic : BinaryOperator → Bool
  | add | sub | mul | div | mod => true
  | _ => false

/-- Whether a comparison holds. -/
def guardedHolds (op : BinaryOperator) (o : Ordering) : Guarded Bool :=
  match op with
  | .eq => pure (o == .eq)
  | .ne => pure (o != .eq)
  | .lt => pure (o == .lt)
  | .le => pure (o != .gt)
  | .ge => pure (o != .lt)
  | .gt => pure (o == .gt)
  | _ => outOfReach

/-- Compares two values that are not null. -/
def guardedCompared (op : BinaryOperator) (left right : Value) : Guarded Value :=
  match order? left right with
  | some o => do return .boolean (← op.guardedHolds o)
  | none => within (.error (.incomparable left.datatype right.datatype))

/-- Joins two truth values. -/
def guardedJoined (op : BinaryOperator) (left right : Value) : Guarded Value := do
  let a ← within (op.truth left)
  let b ← within (op.truth right)
  match op with
  | .and => pure (Truth.and a b).toValue
  | .or => pure (Truth.or a b).toValue
  | _ => outOfReach

/-- A number in double precision. -/
def guardedNumber : Value → Guarded Float
  | .int64 n => pure (Double.ofInt n.toInt)
  | .float64 x => pure x
  | _ => outOfReach

/-- Arithmetic on two values that are not null. -/
def guardedComputed (op : BinaryOperator) (left right : Value) : Guarded Value :=
  match left, right with
  | .int64 a, .int64 b => if op.isArithmetic then within (op.integers a b) else outOfReach
  | .int64 _, .float64 _ | .float64 _, .int64 _ | .float64 _, .float64 _ => do
    let a ← guardedNumber left
    let b ← guardedNumber right
    if op.isArithmetic then within (op.doubles a b) else outOfReach
  | _, _ => within (.error (.inapplicable op left.datatype right.datatype))

/-- Applies an operator to two operands. -/
def guardedEval (op : BinaryOperator) (left right : Value) : Guarded Value :=
  if op.isLogical then op.guardedJoined left right
  else if left.isNull || right.isNull then pure .null
  else if op.isComparison then op.guardedCompared left right
  else op.guardedComputed left right

theorem guardedHolds_eq {op : BinaryOperator} (h : op.isComparison = true) (o : Ordering) :
    op.guardedHolds o = within (.ok (op.holds o)) := by
  cases op with
  | eq | ne | lt | le | ge | gt => rfl
  | _ => cases h

theorem guardedCompared_eq {op : BinaryOperator} (h : op.isComparison = true)
    (left right : Value) : op.guardedCompared left right = within (op.compared left right) := by
  rw [guardedCompared, compared]
  cases order? left right with
  | none => rfl
  | some o =>
      show (do return Value.boolean (← op.guardedHolds o) : Guarded Value) = _
      rw [guardedHolds_eq h]
      rfl

theorem guardedJoined_eq {op : BinaryOperator} (h : op.isLogical = true) (left right : Value) :
    op.guardedJoined left right = within (op.joined left right) := by
  refine within_bind _ (fun a => within_bind _ (fun b => ?_))
  cases op with
  | and | or => rfl
  | _ => cases h

/-- What neither compares nor is logical is arithmetic, and its operands are numbers where they are
converted. -/
theorem guardedComputed_eq {op : BinaryOperator} (hlogical : op.isLogical = false)
    (hcomparison : op.isComparison = false) (left right : Value) :
    op.guardedComputed left right = within (op.computed left right) := by
  have harithmetic : op.isArithmetic = true := by
    cases op with
    | add | sub | mul | div | mod => rfl
    | and | or => cases hlogical
    | _ => cases hcomparison
  cases left with
  | int64 a =>
      cases right with
      | int64 b => exact if_pos harithmetic
      | float64 y => exact if_pos harithmetic
      | _ => rfl
  | float64 x =>
      cases right with
      | int64 b => exact if_pos harithmetic
      | float64 y => exact if_pos harithmetic
      | _ => rfl
  | _ => rfl

/-- An operator is applied without coming to a place that is meant to be out of reach. -/
theorem guardedEval_eq (op : BinaryOperator) (left right : Value) :
    op.guardedEval left right = within (op.eval left right) := by
  rw [guardedEval, eval]
  cases hlogical : op.isLogical with
  | true => exact guardedJoined_eq hlogical left right
  | false =>
      cases left.isNull || right.isNull with
      | true => rfl
      | false =>
          cases hcomparison : op.isComparison with
          | true => exact guardedCompared_eq hcomparison left right
          | false => exact guardedComputed_eq hlogical hcomparison left right

end BinaryOperator

namespace Code

open Guarded

mutual

/-- The code of an expression. An argument is the shortest member path, so nothing is left to do for
arguments once the member paths have been dealt with. -/
def guardedOfExpr (arity : Nat) (e : Expr) : Guarded (Code arity) :=
  match e.memberPath? with
  | some (i, names) => within (path? arity i names)
  | none =>
    match e with
    | .constant v => pure (.constant v)
    | .argument _ => outOfReach
    | .member base name => do return .member (← guardedOfExpr arity base) name
    | .binary op left right => do
      return .binary op (← guardedOfExpr arity left) (← guardedOfExpr arity right)
    | .tuple items => do return .tuple (← guardedOfExprs arity items)

/-- The code of the items of a tuple, in order. -/
def guardedOfExprs (arity : Nat) : List Expr → Guarded (List (Code arity))
  | [] => pure []
  | e :: rest => do return (← guardedOfExpr arity e) :: (← guardedOfExprs arity rest)

end

mutual

/-- Runs code on a list of arguments, which may be too short. -/
def guardedRun {arity : Nat} (row : List Value) : Code arity → Guarded Value
  | .path i names =>
    match row[i.val]? with
    | some v => within (v.memberAt names)
    | none => outOfReach
  | .constant v => pure v
  | .member base name => do within ((← guardedRun row base).member name)
  | .binary op left right => do op.guardedEval (← guardedRun row left) (← guardedRun row right)
  | .tuple items => do return .tuple (← guardedRunAll row items)

/-- Runs the items of a tuple in order. -/
def guardedRunAll {arity : Nat} (row : List Value) :
    List (Code arity) → Guarded (List Value)
  | [] => pure []
  | c :: rest => do return (← guardedRun row c) :: (← guardedRunAll row rest)

end

variable {arity : Nat}

mutual

theorem guardedOfExpr_eq (arity : Nat) (e : Expr) :
    guardedOfExpr arity e = within (ofExpr arity e) := by
  match e with
  | .constant v => rfl
  | .argument i => rfl
  | .member base name =>
      rw [guardedOfExpr, ofExpr]
      cases Expr.memberPath? (.member base name) with
      | some path => rfl
      | none =>
          show (do return Code.member (← guardedOfExpr arity base) name : Guarded _) = _
          rw [guardedOfExpr_eq arity base]
          exact within_bind _ (fun a => rfl)
  | .binary op left right =>
      rw [ofExpr]
      show (do
        return Code.binary op (← guardedOfExpr arity left) (← guardedOfExpr arity right) :
          Guarded _) = _
      rw [guardedOfExpr_eq arity left, guardedOfExpr_eq arity right]
      exact within_bind _ (fun a => within_bind _ (fun b => rfl))
  | .tuple items =>
      rw [ofExpr]
      show (do return Code.tuple (← guardedOfExprs arity items) : Guarded _) = _
      rw [guardedOfExprs_eq arity items]
      exact within_bind _ (fun a => rfl)

theorem guardedOfExprs_eq (arity : Nat) (items : List Expr) :
    guardedOfExprs arity items = within (ofExprs arity items) := by
  match items with
  | [] => rfl
  | e :: rest =>
      rw [guardedOfExprs, ofExprs, guardedOfExpr_eq arity e, guardedOfExprs_eq arity rest]
      exact within_bind _ (fun a => within_bind _ (fun b => rfl))

end

mutual

theorem guardedRun_eq (row : Vector Value arity) (code : Code arity) :
    guardedRun row.toList code = within (run row code) := by
  match code with
  | .path i names =>
      have hv : row.toList[i.val]? = some row[i] := by simp
      rw [guardedRun, hv, run]
  | .constant v => rfl
  | .member base name =>
      rw [guardedRun, run, guardedRun_eq row base]
      exact within_bind _ (fun v => rfl)
  | .binary op left right =>
      rw [guardedRun, run, guardedRun_eq row left, guardedRun_eq row right]
      exact within_bind _ (fun v => within_bind _ (fun w => op.guardedEval_eq v w))
  | .tuple items =>
      rw [guardedRun, run, guardedRunAll_eq row items]
      exact within_bind _ (fun values => rfl)

theorem guardedRunAll_eq (row : Vector Value arity) (items : List (Code arity)) :
    guardedRunAll row.toList items = within (runAll row items) := by
  match items with
  | [] => rfl
  | c :: rest =>
      rw [guardedRunAll, runAll, guardedRun_eq row c, guardedRunAll_eq row rest]
      exact within_bind _ (fun v => within_bind _ (fun values => rfl))

end

end Code

namespace CompiledExpr

open Guarded

/-- Compiles an expression. -/
def guardedCompile (e : Expr) (arity : Nat) : Guarded CompiledExpr := do
  return ⟨arity, ← Code.guardedOfExpr arity e⟩

/-- Evaluates on a list of arguments. -/
def guardedEval (c : CompiledExpr) (row : List Value) : Guarded Value :=
  if row.length = c.arity then c.code.guardedRun row
  else within (.error (.argumentCount c.arity row.length))

theorem guardedCompile_eq (e : Expr) (arity : Nat) :
    guardedCompile e arity = within (compile e arity) := by
  rw [guardedCompile, compile, Code.guardedOfExpr_eq]
  exact within_bind _ (fun code => rfl)

/-- Evaluation never comes to a place that is meant to be out of reach. -/
theorem guardedEval_eq (c : CompiledExpr) (row : List Value) :
    c.guardedEval row = within (c.eval row) := by
  rw [guardedEval, eval]
  by_cases h : row.length = c.arity
  · rw [if_pos h, dif_pos h, ← Code.guardedRun_eq]
    rfl
  · rw [if_neg h, dif_neg h]

/-! ## Compiling and evaluating -/

/-- Where an expression does not compile, the leftmost argument that will not be there is named. -/
theorem compile_eq_error_iff (e : Expr) (arity : Nat) (err : EvalError) :
    compile e arity = .error err ↔
      ∃ i, unbound? arity e.arguments = some i ∧ err = .unboundArgument i arity := by
  have hmeans := Code.means_ofExpr arity e
  rw [compile]
  cases hcode : Code.ofExpr arity e with
  | error err' =>
      rw [hcode] at hmeans
      obtain ⟨i, hi, rfl⟩ := hmeans
      show Except.error (EvalError.unboundArgument i arity) = Except.error err ↔ _
      rw [hi]
      simp [eq_comm]
  | ok code =>
      rw [hcode] at hmeans
      show Except.ok _ = Except.error err ↔ _
      rw [hmeans.1]
      simp

/-- An expression compiles if all arguments that it refers to will be there. -/
theorem compiles_iff (e : Expr) (arity : Nat) :
    (∃ c, compile e arity = .ok c) ↔ ∀ i ∈ e.arguments, i < arity := by
  rw [exists_eq_ok_iff, ← unbound?_eq_none_iff, Option.eq_none_iff_forall_ne_some]
  constructor
  · intro hcompiles i hi
    exact hcompiles _ ((compile_eq_error_iff e arity _).mpr ⟨i, hi, rfl⟩)
  · intro hbound err hfails
    obtain ⟨i, hi, -⟩ := (compile_eq_error_iff e arity err).mp hfails
    exact hbound i hi

/-- Given the right number of arguments, a compiled expression evaluates as its expression does. -/
theorem eval_of_compile {e : Expr} {arity : Nat} {c : CompiledExpr} (h : compile e arity = .ok c)
    {row : List Value} (hrow : row.length = arity) : c.eval row = e.eval row := by
  obtain ⟨code, hcode, rfl⟩ := (compile_eq_ok_iff e arity c).mp h
  have hmeans := Code.means_ofExpr arity e
  rw [hcode] at hmeans
  rw [eval, dif_pos hrow]
  exact hmeans.2 _

end CompiledExpr

/-- **Compiled expressions evaluate as expressions do.** An expression compiles for a number of
arguments exactly if all arguments that it refers to are among them; otherwise the leftmost one that
is not is reported. What has been compiled gives on a row of that many arguments what the expression
gives by recursion, be it a value or an error, and refuses every other row. Neither compiling nor
evaluating comes to a place that is meant to be out of reach. -/
theorem compiled_evaluates_directly (e : Expr) (arity : Nat) :
    ((∃ c, CompiledExpr.compile e arity = .ok c) ↔ ∀ i ∈ e.arguments, i < arity) ∧
    (∀ err, CompiledExpr.compile e arity = .error err ↔
      ∃ i, e.arguments.find? (arity ≤ ·) = some i ∧ err = .unboundArgument i arity) ∧
    CompiledExpr.guardedCompile e arity = .within (CompiledExpr.compile e arity) ∧
    ∀ c, CompiledExpr.compile e arity = .ok c → ∀ row : List Value,
      (row.length = arity → c.eval row = e.eval row) ∧
      (row.length ≠ arity → c.eval row = .error (.argumentCount arity row.length)) ∧
      c.guardedEval row = .within (c.eval row) := by
  refine ⟨CompiledExpr.compiles_iff e arity, CompiledExpr.compile_eq_error_iff e arity,
    CompiledExpr.guardedCompile_eq e arity, ?_⟩
  intro c hc row
  refine ⟨CompiledExpr.eval_of_compile hc, ?_, c.guardedEval_eq row⟩
  intro hrow
  obtain rfl : c.arity = arity := CompiledExpr.arity_of_compile hc
  rw [CompiledExpr.eval, dif_neg hrow]

/-- Of two failures the left one is reported, by the code as by the expression. -/
theorem compiled_evaluates_directly_twice_failing :
    ∃ c, CompiledExpr.compile
        (.tuple [.binary .div (.members (.argument 0) ["a", "b"]) (.argument 1),
          .member (.tuple [.argument 1]) "7"]) 2 = .ok c ∧
      c.eval [.struct [("a", .struct [("b", .int64 1)])], .int64 0] = .error .divisionByZero := by
  obtain ⟨hcompiles, -, -, hruns⟩ := compiled_evaluates_directly
    (.tuple [.binary .div (.members (.argument 0) ["a", "b"]) (.argument 1),
      .member (.tuple [.argument 1]) "7"]) 2
  obtain ⟨c, hc⟩ := hcompiles.mpr (by decide)
  refine ⟨c, hc, ?_⟩
  rw [(hruns c hc _).1 rfl]
  rfl

end RowQuery
