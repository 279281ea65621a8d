import RowQuery.Json.Reader

set_option autoImplicit false

/-! # The stored form of a value

A value is stored as a variant named for its kind. Null is a plain string; a struct is stored as a
structure with one member, the list of its fields, and a field as an array of its name and its
value. Infinities and NaN are stored as null, which cannot be read back. -/

namespace RowQuery.Value

/-- A double as a leaf. -/
def doubleToJson (x : Float) : Json :=
  match Json.Number.ofDouble? x with
  | some n => .number n
  | none => .null

mutual

/-- The stored form of a value. -/
def toJson : Value → Json
  | .null => .ofString "Null"
  | .boolean b => .ofMembers [("Boolean", .bool b)]
  | .int64 n => .ofMembers [("Int64", .number (.ofInt n.toInt))]
  | .float64 x => .ofMembers [("Float64", doubleToJson x)]
  | .utf8 s => .ofMembers [("Utf8", .ofString s)]
  | .tuple values => .ofMembers [("Tuple", .array (toJsonAll values))]
  | .struct fields =>
    .ofMembers [("Struct", .ofMembers [("fields", .array (toJsonFields fields))])]

/-- The stored forms of the values of a tuple. -/
def toJsonAll : List Value → List Json
  | [] => []
  | v :: rest => toJson v :: toJsonAll rest

/-- The stored forms of the fields of a struct. -/
def toJsonFields : List (String × Value) → List Json
  | [] => []
  | (name, v) :: rest => .array [.ofString name, toJson v] :: toJsonFields rest

end

mutual

/-- Reads a value. The number is the room: how many containers may still be entered. Every container
in a value is entered by a function of its own. -/
def ofJson? : Nat → Json → Option Value
  | _, .string body => do
    if (← Json.toText? (.string body)) = "Null" then some .null else none
  | room + 1, .object [(name, content)] => do
    match ← Json.toText? (.string name) with
    | "Null" => if content.isNull then some .null else none
    | "Boolean" => content.toBool?.map .boolean
    | "Int64" => content.toInt64?.map .int64
    | "Float64" => content.toDouble?.map .float64
    | "Utf8" => content.toText?.map .utf8
    | "Tuple" => (valuesOf? room content).map .tuple
    | "Struct" => (structOf? room content).map .struct
    | _ => none
  | _, _ => none

/-- Reads the values of a tuple. -/
def valuesOf? : Nat → Json → Option (List Value)
  | room + 1, .array items => items.mapM (ofJson? room)
  | _, _ => none

/-- Reads a struct: a structure whose member is the list of its fields. -/
def structOf? : Nat → Json → Option (List (String × Value))
  | room + 1, j => do
    match ← Json.structure? ["fields"] j with
    | [fields] => fieldsOf? room fields
    | _ => none
  | _, _ => none

/-- Reads the fields of a struct. -/
def fieldsOf? : Nat → Json → Option (List (String × Value))
  | room + 1, .array items => items.mapM (fieldOf? room)
  | _, _ => none

/-- Reads a field. -/
def fieldOf? : Nat → Json → Option (String × Value)
  | room + 1, .array [name, v] => do return (← name.toText?, ← ofJson? room v)
  | _, _ => none

end

/-- The stored text of a value. -/
def stored (v : Value) : String := String.ofList v.toJson.text

/-- The value with the given stored text. -/
def ofStored? (text : String) : Option Value := do
  ofJson? Json.limit (← Json.ofText? text.toList)

/-- The value with the given stored text, which there must be. -/
def ofStored (text : String) : Except QueryError Value := Json.required (ofStored? text)

end RowQuery.Value
