import RowQuery.Sql.Clause
import RowQuery.Sql.Node
import RowQuery.Sql.Options
import RowQuery.Sql.Predicate

set_option autoImplicit false

/-! # Commands

A table query is rendered as one command: the columns of the table, the table, and the merged filter
as condition, with the constants of the filter as parameters. -/

namespace RowQuery

/-- The text and the parameters of a command, ready to be issued. -/
structure PreparedCommand where
  text : String
  parameters : List BoundParameter
  deriving DecidableEq

/-- A command as it was given to a connection. -/
structure IssuedCommand where
  text : String
  parameters : List BoundParameter
  timeout : Option Duration
  deriving DecidableEq

/-- A query on one table: its chain of nodes, and the options of its commands. -/
structure SqlQuery where
  node : QueryNode
  options : SqlOptions
  deriving DecidableEq

namespace SqlQuery

/-- All rows of a table. -/
def new (connection : Connection) (table : Table) (options : SqlOptions) : SqlQuery :=
  ⟨.source ⟨connection, table⟩, options⟩

/-- The query with one more filter. -/
def filter (q : SqlQuery) (predicate : Expr) : SqlQuery :=
  { q with node := .filter q.node predicate }

/-- The names under which the values of a row are delivered. -/
def columns (q : SqlQuery) : List String :=
  match q.node.root with
  | .ok s => s.table.columnNames
  | .error _ => []

/-- The command of a query on the table `source` with an optional predicate. -/
def prepareFor (source : TableSource) (predicate : Option Expr) :
    Except RenderError PreparedCommand :=
  let d := source.connection.dialect
  let start := [.select source.table.columnNames, .source source.table]
  match predicate with
  | none => .ok ⟨Clause.command d start, []⟩
  | some p =>
    match p.toSql d (.new source.connection.style) with
    | (.ok text, b) => .ok ⟨Clause.command d (start ++ [.condition text]), b.parameters⟩
    | (.error e, _) => .error e

/-- The command of the query. -/
def prepare (q : SqlQuery) : Except QueryError PreparedCommand := do
  let source ← q.node.root
  (prepareFor source q.node.mergedFilter?).mapError .rendering

/-- The command of the query as it is issued, and the connection that is to execute it. -/
def command (q : SqlQuery) : Except QueryError (Connection × IssuedCommand) := do
  let source ← q.node.root
  let prepared ← q.prepare
  return (source.connection,
    ⟨prepared.text, prepared.parameters, some q.options.commandTimeout⟩)

/-- What a query prepares depends on its source and its merged filter. -/
theorem prepare_of_root {q : SqlQuery} {source : TableSource} (h : q.node.root = .ok source) :
    q.prepare = (prepareFor source q.node.mergedFilter?).mapError .rendering := by
  unfold prepare
  rw [h]
  rfl

/-- The table at the root of a query is all that can be wanting besides the text of its filters. -/
theorem command_of_root {q : SqlQuery} {source : TableSource} (h : q.node.root = .ok source) :
    q.command = ((prepareFor source q.node.mergedFilter?).mapError .rendering).map fun prepared =>
      (source.connection, ⟨prepared.text, prepared.parameters, some q.options.commandTimeout⟩) := by
  rw [command, prepare, h]
  rfl

/-! ## Several filters -/

theorem node_foldl_filter (q : SqlQuery) (filters : List Expr) :
    (filters.foldl filter q).node = filters.foldl QueryNode.filter q.node := by
  induction filters generalizing q with
  | nil => rfl
  | cons p rest ih => exact ih (q.filter p)

theorem predicates_foldl_filter (q : SqlQuery) (filters : List Expr) :
    (filters.foldl filter q).node.predicates = q.node.predicates ++ filters := by
  rw [node_foldl_filter, QueryNode.predicates_foldl_filter]

theorem root_foldl_filter (q : SqlQuery) (filters : List Expr) :
    (filters.foldl filter q).node.root = q.node.root := by
  induction filters generalizing q with
  | nil => rfl
  | cons p rest ih => exact ih (q.filter p)

end SqlQuery

end RowQuery
