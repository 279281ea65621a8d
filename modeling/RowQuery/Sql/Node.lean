import RowQuery.Error
import RowQuery.Sql.Dialect
import RowQuery.Sql.Parameter
import RowQuery.Sql.Table

set_option autoImplicit false

/-! # Query nodes

A query on a table is a chain of nodes: the source, which is the table as one connection sees it,
and the filters that have been applied to it since, each on top of its predecessor. All filters of a
chain are merged into one predicate, in the order in which they were applied. -/

namespace RowQuery

/-- A connection, by name, with what rendering a command for it depends on. How it answers a command
is not part of the query: see `RowQuery.Sql.Connection`. -/
structure Connection where
  name : String
  dialect : Dialect
  style : ParameterStyle
  deriving DecidableEq

/-- A table read through a connection. -/
structure TableSource where
  connection : Connection
  table : Table
  deriving DecidableEq

/-- A chain of query nodes, from its last filter to its source. -/
inductive QueryNode where
  | source (s : TableSource)
  | filter (predecessor : QueryNode) (predicate : Expr)
  deriving DecidableEq

namespace QueryNode

/-- The nodes of the chain, from the last one to the root. -/
def walk : QueryNode → List QueryNode
  | .source s => [.source s]
  | .filter before p => .filter before p :: walk before

/-- The table at a node, if the node is a source. -/
def asSource? : QueryNode → Option TableSource
  | .source s => some s
  | .filter .. => none

/-- The predicate at a node, if the node is a filter. -/
def asPredicate? : QueryNode → Option Expr
  | .source _ => none
  | .filter _ p => some p

/-- The source at the root of the chain. -/
def root (node : QueryNode) : Except QueryError TableSource :=
  match node.walk.findSome? asSource? with
  | some s => .ok s
  | none => .error .malformedChain

/-- The predicates of the chain, in the order in which they were applied. -/
def predicates (node : QueryNode) : List Expr := (node.walk.filterMap asPredicate?).reverse

/-- The conjunction of all filters of the chain, if there is one. -/
def mergedFilter? (node : QueryNode) : Option Expr := Expr.andAll? node.predicates

@[simp] theorem root_source (s : TableSource) : root (.source s) = .ok s := rfl

/-- A filter changes nothing about the root. -/
@[simp] theorem root_filter (before : QueryNode) (p : Expr) :
    root (.filter before p) = root before := rfl

@[simp] theorem predicates_source (s : TableSource) : predicates (.source s) = [] := rfl

/-- A filter adds its predicate behind those applied before. -/
@[simp] theorem predicates_filter (before : QueryNode) (p : Expr) :
    predicates (.filter before p) = predicates before ++ [p] := by
  simp [predicates, walk, asPredicate?]

theorem predicates_foldl_filter (filters : List Expr) (node : QueryNode) :
    (filters.foldl filter node).predicates = node.predicates ++ filters := by
  induction filters generalizing node with
  | nil => exact (List.append_nil _).symm
  | cons p rest ih => rw [List.foldl_cons, ih, predicates_filter, List.append_assoc]; rfl

/-- Every chain has a source at its root. -/
theorem exists_root (node : QueryNode) : ∃ s, node.root = .ok s := by
  induction node with
  | source s => exact ⟨s, rfl⟩
  | filter before p ih => simpa using ih

end QueryNode

end RowQuery
