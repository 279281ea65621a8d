import RowQuery.Expr.Basic
import RowQuery.Operator.Error
import RowQuery.Query.PushDown

set_option autoImplicit false

/-! # Errors of queries

Everything that can go wrong between building a query and reading its last row. A `RenderError`
says why an expression has no rendering as SQL; a `QueryError` is what a stream or a call answers
with. Each cause is a constructor, and the two `message` functions word them. -/

namespace RowQuery

/-- Why an expression has no rendering as SQL. -/
inductive RenderError where
  | unsupportedOperator (op : BinaryOperator)
  | unsupportedNode (node : Expr)
  /-- The stacks of the renderer do not fit together. -/
  | internal (text : String)
  deriving DecidableEq

namespace RenderError

/-- What the error says. -/
def message : RenderError → String
  | unsupportedOperator op => s!"Unsupported binary operator for translation: {op.name}"
  | unsupportedNode node => s!"Unsupported expression for translation: {node.kind} ({node.text})"
  | internal text => s!"Translation stack invariant violated: {text}"

end RenderError

/-- Why a query failed. -/
inductive QueryError where
  | rendering (e : RenderError)
  /-- A chain of query nodes without a source at its root. -/
  | malformedChain
  | evaluation (e : EvalError)
  /-- A source does not carry out an operator, whose kind it names. -/
  | unsupportedPushDown (name : String)
  /-- A failure of a source, in its own words. -/
  | failure (text : String)
  /-- A text that is not the stored form of what was to be read. -/
  | json
  /-- A row with another number of values than the table has columns. -/
  | rowWidth (expected returned : Nat)
  /-- A broken invariant of a source. -/
  | internal (text : String)
  deriving DecidableEq

namespace QueryError

/-- What the error says. -/
def message : QueryError → String
  | rendering e => e.message
  | malformedChain => "Query node chain does not terminate in a source node"
  | evaluation e => s!"Failed to evaluate expression: {e.message}"
  | unsupportedPushDown name => s!"Source does not support push down of {name}"
  | failure text => s!"Injected failure: {text}"
  | json => "Malformed JSON"
  | rowWidth expected returned =>
    s!"internal error: expected {expected} values per row, driver returned {returned}"
  | internal text => s!"internal error: {text}"

end QueryError

end RowQuery
