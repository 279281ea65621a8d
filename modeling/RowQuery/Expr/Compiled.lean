import RowQuery.Expr.Basic
import RowQuery.Operator.Eval
import RowQuery.Value.Member

set_option autoImplicit false

/-! # Compiled expressions

An expression is compiled for a fixed number of arguments before it is evaluated on rows. Compiling
finds out once whether every argument that the expression refers to will be there; the code that
comes out can only refer to such arguments, because the positions in it are bounded by its type.
Code follows the expression, except that a member path becomes one instruction that walks from an
argument to a value. -/

namespace RowQuery

/-- Code over `arity` arguments. -/
inductive Code (arity : Nat) where
  /-- Walks from an argument along member names. -/
  | path (index : Fin arity) (names : List String)
  | constant (value : Value)
  | member (base : Code arity) (name : String)
  | binary (op : BinaryOperator) (left right : Code arity)
  | tuple (items : List (Code arity))

namespace Code

mutual

/-- Runs code on its arguments: operands and items from left to right, the first failure wins. -/
def run {arity : Nat} (arguments : Vector Value arity) : Code arity → Except EvalError Value
  | .path i names => arguments[i].memberAt names
  | .constant v => .ok v
  | .member base name => do (← run arguments base).member name
  | .binary op left right => do op.eval (← run arguments left) (← run arguments right)
  | .tuple items => do return .tuple (← runAll arguments items)

/-- Runs the items of a tuple in order. -/
def runAll {arity : Nat} (arguments : Vector Value arity) :
    List (Code arity) → Except EvalError (List Value)
  | [] => .ok []
  | c :: rest => do return (← run arguments c) :: (← runAll arguments rest)

end

/-- The code that walks from an argument, if there is such an argument. -/
def path? (arity index : Nat) (names : List String) : Except EvalError (Code arity) :=
  if h : index < arity then .ok (.path ⟨index, h⟩ names) else .error (.unboundArgument index arity)

mutual

/-- The code of an expression. It fails at the leftmost argument that will not be there. -/
def ofExpr (arity : Nat) : Expr → Except EvalError (Code arity)
  | .constant v => .ok (.constant v)
  | .argument i => path? arity i []
  | .member base name =>
    match Expr.memberPath? (.member base name) with
    | some (i, names) => path? arity i names
    | none => do return .member (← ofExpr arity base) name
  | .binary op left right => do return .binary op (← ofExpr arity left) (← ofExpr arity right)
  | .tuple items => do return .tuple (← ofExprs arity items)

/-- The code of the items of a tuple, in order. -/
def ofExprs (arity : Nat) : List Expr → Except EvalError (List (Code arity))
  | [] => .ok []
  | e :: rest => do return (← ofExpr arity e) :: (← ofExprs arity rest)

end

end Code

/-- An expression compiled for a number of arguments. -/
structure CompiledExpr where
  arity : Nat
  code : Code arity

namespace CompiledExpr

/-- Compiles an expression for `arity` arguments. -/
def compile (e : Expr) (arity : Nat) : Except EvalError CompiledExpr := do
  return ⟨arity, ← Code.ofExpr arity e⟩

/-- Evaluates on a list of arguments, whose number must be the one compiled for. -/
def eval (c : CompiledExpr) (arguments : List Value) : Except EvalError Value :=
  if h : arguments.length = c.arity then
    c.code.run ⟨arguments.toArray, by simpa using h⟩
  else .error (.argumentCount c.arity arguments.length)

/-- Evaluates as a predicate: a null counts as false. -/
def evalPredicate (c : CompiledExpr) (arguments : List Value) : Except EvalError Bool := do
  (← c.eval arguments).asPredicate

/-- What a compiled expression shows of itself. -/
def summary (c : CompiledExpr) : String :=
  "CompiledExpr \x7b arity: " ++ toString c.arity ++ ", .. \x7d"

theorem compile_eq_ok_iff (e : Expr) (arity : Nat) (c : CompiledExpr) :
    compile e arity = .ok c ↔ ∃ code, Code.ofExpr arity e = .ok code ∧ c = ⟨arity, code⟩ := by
  rw [compile]
  cases Code.ofExpr arity e with
  | error err => simp [bind, Except.bind]
  | ok code => simp [bind, Except.bind, pure, Except.pure, eq_comm]

/-- A compiled expression expects the number of arguments that it was compiled for. -/
theorem arity_of_compile {e : Expr} {arity : Nat} {c : CompiledExpr}
    (h : compile e arity = .ok c) : c.arity = arity := by
  obtain ⟨code, -, rfl⟩ := (compile_eq_ok_iff e arity c).mp h
  rfl

end CompiledExpr

end RowQuery
