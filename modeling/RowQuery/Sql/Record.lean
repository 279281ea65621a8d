import RowQuery.Query.Enumerate
import RowQuery.Sql.Table
import RowQuery.Value.Member

set_option autoImplicit false

/-! # Records

A record is made from a row of a table. A `Record` names the table and says how the fields of a row
become a value of some type; `Record.collect` enumerates a query and makes a record of every
element, stopping at the first that cannot be made. -/

namespace RowQuery

/-- Something that can be made from the rows of a table. -/
structure Record (α : Type) where
  table : Table
  fromRow : Fields → Except QueryError α

namespace Record

variable {α : Type}

/-- Makes a record of an element, which must be a row. -/
def fromValue (r : Record α) : Value → Except QueryError α
  | .struct fields => r.fromRow fields
  | v => .error (.evaluation (.notARow v.datatype))

/-- The records of all elements of a query. -/
def collect (setting : Setting) (r : Record α) (q : Query) : Gathered α :=
  q.gather setting r.fromValue

/-- A field that must be there. -/
def require (name : String) (fields : Fields) : Except EvalError Value :=
  match fields.get? name with
  | some v => .ok v
  | none => .error (.missingColumn name)

/-- An article in stock and how many there are of it. -/
structure StockItem where
  sku : String
  quantity : Int64

/-- Stock items, read from `inventory.items`; both columns must be there. -/
def stockItem : Record StockItem where
  table := ⟨some "inventory", "items", [⟨"sku", .utf8⟩, ⟨"qty", .int64⟩]⟩
  fromRow fields := Except.mapError .evaluation do
    let sku ← (← require "sku" fields).asText
    let quantity ← (← require "qty" fields).asInt64
    return ⟨sku, quantity⟩

/-- A user of an application. -/
structure User where
  id : Int64
  name : String

/-- Users, read from `users`; their fields are taken out of the row, and an absent one is null. -/
def user : Record User where
  table := ⟨none, "users", [⟨"id", .int64⟩, ⟨"name", .utf8⟩]⟩
  fromRow fields := Except.mapError .evaluation do
    let (id, rest) := fields.take "id"
    let id ← (id.getD .null).asInt64
    let (name, _) := Fields.take "name" rest
    let name ← (name.getD .null).asText
    return ⟨id, name⟩

end Record

end RowQuery
