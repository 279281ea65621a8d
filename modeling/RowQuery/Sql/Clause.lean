import RowQuery.Sql.Dialect
import RowQuery.Sql.Table

set_option autoImplicit false

/-! # Clauses

The text of a command is put together clause by clause, in the order in which the clauses are given.
-/

namespace RowQuery

/-- A clause of a command. -/
inductive Clause where
  /-- The columns to read; no columns means all. -/
  | select (columns : List String)
  | source (table : Table)
  /-- The condition on rows, as text of the dialect. -/
  | condition (text : String)

namespace Clause

/-- The text of a clause. -/
def text (d : Dialect) : Clause → String
  | .select [] => "SELECT *"
  | .select columns => "SELECT " ++ ", ".intercalate (columns.map d.quote)
  | .source table => " FROM " ++ d.quotePath table.path
  | .condition text => " WHERE " ++ text

/-- The text of a command made of the given clauses. -/
def command (d : Dialect) (clauses : List Clause) : String :=
  String.join (clauses.map (text d))

@[simp] theorem command_nil (d : Dialect) : command d [] = "" := rfl

@[simp] theorem command_cons (d : Dialect) (clause : Clause) (rest : List Clause) :
    command d (clause :: rest) = clause.text d ++ command d rest := by
  rw [command, List.map_cons, String.join_cons]
  rfl

end Clause

end RowQuery
