import RowQuery.Value.Basic

set_option autoImplicit false

/-! # Tables

What a query has to know of a table: where it is, and its columns in the order in which a row read
from it holds their values. -/

namespace RowQuery

/-- A column of a table. -/
structure Column where
  name : String
  datatype : DataType
  deriving DecidableEq, Inhabited

/-- A table, in a schema or not. -/
structure Table where
  schema : Option String
  name : String
  columns : List Column
  deriving DecidableEq, Inhabited

namespace Table

/-- The identifiers that lead to the table: the schema, if there is one, and the name. -/
def path (t : Table) : List String := t.schema.toList ++ [t.name]

/-- The names of the columns, in order. -/
def columnNames (t : Table) : List String := t.columns.map (·.name)

end Table

end RowQuery
