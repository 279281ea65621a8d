import RowQuery.Expr.Basic
import RowQuery.Operator.Eval
import RowQuery.Value.Member

set_option autoImplicit false

/-! # Direct evaluation

`Expr.eval` gives the meaning of an expression by recursion on it: operands and items from left to
right, the first failure wins. Compiled expressions, in `RowQuery.Expr.Compiled`, are what queries
run; this is what they are measured against. -/

namespace RowQuery.Expr

mutual

/-- The value of an expression on a list of arguments. -/
def eval (arguments : List Value) : Expr → Except EvalError Value
  | .constant v => .ok v
  | .argument i =>
    match arguments[i]? with
    | some v => .ok v
    | none => .error (.unboundArgument i arguments.length)
  | .member base name => do (← eval arguments base).member name
  | .binary op left right => do op.eval (← eval arguments left) (← eval arguments right)
  | .tuple items => do return .tuple (← evalAll arguments items)

/-- The values of the items of a tuple, in order. -/
def evalAll (arguments : List Value) : List Expr → Except EvalError (List Value)
  | [] => .ok []
  | e :: rest => do return (← eval arguments e) :: (← evalAll arguments rest)

end

/-- An argument has a value where there is one at its position. -/
theorem eval_argument_eq_ok_iff {arguments : List Value} {i : Nat} {v : Value} :
    eval arguments (.argument i) = .ok v ↔ arguments[i]? = some v := by
  rw [eval]
  cases arguments[i]? <;> simp

end RowQuery.Expr
