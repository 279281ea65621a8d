import RowQuery.Expr.Compiled

set_option autoImplicit false

/-! # Expressions compiled on first use

A `LazyExpr` is a cell for one expression: the first successful `get` compiles it, every later one
gives the same code again. An expression that does not compile leaves the cell empty and fails at
every `get`. A `CompileCache` is a collection of such cells, one for each expression and number of
arguments.

What a cell holds is what compiling gives (`LazyExpr.compiled_eq`, a field of the type), so neither
a cell nor a cache can be noticed in the answers: `LazyExpr.get_fst`, `CompileCache.get_eq`. -/

namespace RowQuery

/-- A cell for the compiled form of an expression. -/
structure LazyExpr where
  expr : Expr
  arity : Nat
  /-- The compiled form, once there has been a successful `get`. -/
  compiled : Option CompiledExpr
  compiled_eq : ∀ c, compiled = some c → CompiledExpr.compile expr arity = .ok c

namespace LazyExpr

/-- An empty cell. -/
def new (e : Expr) (arity : Nat) : LazyExpr := ⟨e, arity, none, nofun⟩

/-- Whether the expression has been compiled. -/
def isCompiled (cell : LazyExpr) : Bool := cell.compiled.isSome

/-- The cell after an attempt to compile. -/
def fill (cell : LazyExpr) : LazyExpr :=
  match h : CompiledExpr.compile cell.expr cell.arity with
  | .ok c => ⟨cell.expr, cell.arity, some c, fun _ hc => Option.some.inj hc ▸ h⟩
  | .error _ => cell

/-- The compiled form of the expression, and the cell from then on. -/
def get (cell : LazyExpr) : Except EvalError CompiledExpr × LazyExpr :=
  match cell.compiled with
  | some c => (.ok c, cell)
  | none => (CompiledExpr.compile cell.expr cell.arity, cell.fill)

/-- The state of a cell cannot be noticed in what `get` gives. -/
theorem get_fst (cell : LazyExpr) : cell.get.1 = CompiledExpr.compile cell.expr cell.arity := by
  unfold get
  split
  · rename_i c hc
    exact (cell.compiled_eq c hc).symm
  · rfl

end LazyExpr

/-- The cells of all expressions that have been compiled. -/
structure CompileCache where
  cells : List LazyExpr

namespace CompileCache

/-- No expression has been compiled. -/
def empty : CompileCache := ⟨[]⟩

/-- The cell for an expression, empty if it has not been compiled for that number of arguments. -/
def cell (cache : CompileCache) (e : Expr) (arity : Nat) : LazyExpr :=
  (cache.cells.find? (fun c => c.expr = e && c.arity = arity)).getD (.new e arity)

/-- Keeps a cell whose expression has been compiled. -/
def store (cache : CompileCache) (cell : LazyExpr) : CompileCache :=
  if cell.isCompiled then ⟨cell :: cache.cells⟩ else cache

/-- The cell that stands for an expression is a cell of that expression. -/
theorem cell_spec (cache : CompileCache) (e : Expr) (arity : Nat) :
    (cache.cell e arity).expr = e ∧ (cache.cell e arity).arity = arity := by
  unfold cell
  cases h : cache.cells.find? (fun c => c.expr = e && c.arity = arity) with
  | none => exact ⟨rfl, rfl⟩
  | some c => simpa using List.find?_some h

/-- The compiled form of an expression. -/
def get (cache : CompileCache) (e : Expr) (arity : Nat) : Except EvalError CompiledExpr :=
  (cache.cell e arity).get.1

/-- A cache cannot be noticed in what `get` gives. -/
theorem get_eq (cache : CompileCache) (e : Expr) (arity : Nat) :
    cache.get e arity = CompiledExpr.compile e arity := by
  rw [get, LazyExpr.get_fst, (cell_spec cache e arity).1, (cell_spec cache e arity).2]

end CompileCache

end RowQuery
