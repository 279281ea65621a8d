import RowQuery.Json.Value
import RowQuery.Sql.Options
import RowQuery.Sql.Parameter
import RowQuery.Sql.Table

set_option autoImplicit false

/-! # Stored forms around a database

Tables are stored with their columns, options with the seconds of their timeout, bound parameters
with their names. An absent schema is stored as null and may be left out of an object. Options may
leave out everything: what is not there has its default. -/

namespace RowQuery

namespace Column

/-- The stored form of a column. -/
def toJson (c : Column) : Json :=
  .ofMembers [("name", .ofString c.name), ("datatype", .ofString c.datatype.name)]

/-- Reads a column. -/
def ofJson? : Nat → Json → Option Column
  | 0, _ => none
  | room + 1, j => do
    match ← Json.structure? ["name", "datatype"] j with
    | [name, datatype] => return ⟨← name.toText?, ← Json.toDataType? room datatype⟩
    | _ => none

end Column

namespace Table

/-- The stored form of a schema: its name, or null. -/
def schemaToJson : Option String → Json
  | some s => .ofString s
  | none => .null

/-- The stored form of a table. -/
def toJson (t : Table) : Json :=
  .ofMembers [("schema", schemaToJson t.schema), ("name", .ofString t.name),
    ("columns", .array (t.columns.map Column.toJson))]

/-- Reads a schema, where null stands for none. -/
def schemaOfJson? : Json → Option (Option String)
  | .null => some none
  | j => j.toText?.map some

/-- The members of a table: in an object the schema may be absent, in an array it may not. -/
def parts? : Json → Option (Option String × Json × Json)
  | .array [schema, name, columns] => do return (← schemaOfJson? schema, name, columns)
  | .object members => do
    match ← Json.select? ["schema", "name", "columns"] members with
    | [schema, some name, some columns] =>
      return (← ((schema.map schemaOfJson?).getD (some none)), name, columns)
    | _ => none
  | _ => none

/-- Reads a table. -/
def ofJson? : Nat → Json → Option Table
  | 0, _ => none
  | room + 1, j => do
    match room, ← parts? j with
    | room + 1, (schema, name, .array columns) => do
      return ⟨schema, ← name.toText?, ← columns.mapM (Column.ofJson? room)⟩
    | _, _ => none

/-- The stored text of a table. -/
def stored (t : Table) : String := String.ofList t.toJson.text

/-- The table with the given stored text. -/
def ofStored? (text : String) : Option Table := do
  ofJson? Json.limit (← Json.ofText? text.toList)

/-- The table with the given stored text, which there must be. -/
def ofStored (text : String) : Except QueryError Table := Json.required (ofStored? text)

end Table

namespace SqlOptions

/-- The stored form of options: whole seconds only. -/
def toJson (o : SqlOptions) : Json :=
  .ofMembers [("command_timeout_secs", .number (.ofNat o.commandTimeout.seconds))]

/-- Reads options; a timeout that is absent is the default one. -/
def ofJson? (j : Json) : Option SqlOptions := do
  let timeout ←
    match j with
    | .array [] => some none
    | .array [timeout] => some (some timeout)
    | .object members => (← Json.select? ["command_timeout_secs"] members).head?
    | _ => none
  match timeout with
  | none => some .default
  | some j => return ⟨.ofSeconds (← j.toWord?)⟩

/-- The stored text of options. -/
def stored (o : SqlOptions) : String := String.ofList o.toJson.text

/-- The options with the given stored text. -/
def ofStored (text : String) : Except QueryError SqlOptions :=
  Json.required ((Json.ofText? text.toList).bind ofJson?)

end SqlOptions

namespace BoundParameter

/-- The stored form of a parameter. -/
def toJson (p : BoundParameter) : Json :=
  .ofMembers [("name", .ofString p.name), ("value", p.value.toJson)]

/-- The stored text of a list of parameters. -/
def storedAll (ps : List BoundParameter) : String :=
  String.ofList (Json.array (ps.map toJson)).text

end BoundParameter

end RowQuery
