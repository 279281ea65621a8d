import RowQuery.Error
import RowQuery.Json.Basic

set_option autoImplicit false

/-! # Reading values from JSON trees

The pieces from which the readers of stored forms are made. Reading goes down a tree with a number
of containers that may still be entered, the *room*: a text that nests deeper than `limit` is
refused. A container that is skipped takes no room.

Three shapes recur. A *scalar* is a leaf. A *variant* is an object with one member, whose name tells
the cases apart; a case that holds no data may also be written as a plain string. A *structure* is
an object with its members in any order, or an array of their values in the order of declaration. In
an object, unknown members are skipped and a member that occurs twice is refused. -/

namespace RowQuery.Json

/-- How deep arrays and objects may nest. -/
def limit : Nat := 127

/-! ## Scalars -/

/-- The characters of a string. -/
def toText? : Json → Option String
  | .string body => (Text.unescape? body).map String.ofList
  | _ => none

/-- A truth value. -/
def toBool? : Json → Option Bool
  | .bool b => some b
  | _ => none

/-- An unsigned 64-bit integer. -/
def toWord? : Json → Option Nat
  | .number n => n.toWord?
  | _ => none

/-- A signed 64-bit integer. -/
def toInt64? : Json → Option Int64
  | .number n => n.toInt64?
  | _ => none

/-- A floating-point number; integers count as such too. -/
def toDouble? : Json → Option Float
  | .number n => n.toDouble?
  | _ => none

/-- Whether the leaf is null. -/
def isNull : Json → Bool
  | .null => true
  | _ => false

/-! ## Structures -/

/-- The value of the member `name`, if it occurs at most once. -/
def unique? (name : String) (members : List (String × Json)) : Option (Option Json) :=
  match members.filter (fun m => m.1 = name) with
  | [] => some none
  | [m] => some (some m.2)
  | _ => none

/-- The members with their names read. -/
def named? (members : List (List Char × Json)) : Option (List (String × Json)) :=
  members.mapM (fun m => (Text.unescape? m.1).map (fun name => (String.ofList name, m.2)))

/-- The members of an object that a structure with these names has, `none` for those that are
absent. -/
def select? (names : List String) (members : List (List Char × Json)) :
    Option (List (Option Json)) := do
  let members ← named? members
  names.mapM (fun name => unique? name members)

/-- The members of a structure all of whose members must be there. -/
def structure? (names : List String) : Json → Option (List Json)
  | .array items => if items.length = names.length then some items else none
  | .object members => do (← select? names members).mapM id
  | _ => none

/-! ## Variants without data -/

/-- The name of a case without data: a plain string, or an object with one member that is null. The
object takes room for one container. -/
def case? (room : Nat) : Json → Option String
  | .string body => toText? (.string body)
  | .object [(name, content)] =>
    if 0 < room && content.isNull then toText? (.string name) else none
  | _ => none

/-- A kind of value, by its name. -/
def toDataType? (room : Nat) (j : Json) : Option DataType := (case? room j).bind DataType.ofName?

/-! ## Whole texts -/

/-- What a text was read as; it is an error that a text cannot be read. -/
def required {α : Type} : Option α → Except QueryError α
  | some a => .ok a
  | none => .error .json

end RowQuery.Json
