import RowQuery.Expr.Basic
import RowQuery.Json.Value

set_option autoImplicit false

/-! # The stored form of an expression

An expression is stored as a variant named for its kind of node. Member accesses and binary
expressions hold structures; operators are variants without data. -/

namespace RowQuery.Expr

mutual

/-- The stored form of an expression. -/
def toJson : Expr → Json
  | .constant v => .ofMembers [("Constant", v.toJson)]
  | .argument i => .ofMembers [("Variable", .number (.ofNat i))]
  | .member base name =>
    .ofMembers [("Member", .ofMembers [("base", toJson base), ("name", .ofString name)])]
  | .binary op left right =>
    .ofMembers [("Binary",
      .ofMembers [("op", .ofString op.name), ("left", toJson left), ("right", toJson right)])]
  | .tuple items => .ofMembers [("Tuple", .array (toJsonAll items))]

/-- The stored forms of the items of a tuple. -/
def toJsonAll : List Expr → List Json
  | [] => []
  | e :: rest => toJson e :: toJsonAll rest

end

mutual

/-- Reads an expression. The number is the room: how many containers may still be entered. Every
container in an expression is entered by a function of its own. -/
def ofJson? : Nat → Json → Option Expr
  | room + 1, .object [(name, content)] => do
    match ← Json.toText? (.string name) with
    | "Constant" => (Value.ofJson? room content).map .constant
    | "Variable" => content.toWord?.map .argument
    | "Member" => memberOf? room content
    | "Binary" => binaryOf? room content
    | "Tuple" => (itemsOf? room content).map .tuple
    | _ => none
  | _, _ => none

/-- Reads a member access. -/
def memberOf? : Nat → Json → Option Expr
  | room + 1, j => do
    match ← Json.structure? ["base", "name"] j with
    | [base, name] => return .member (← ofJson? room base) (← name.toText?)
    | _ => none
  | _, _ => none

/-- Reads a binary expression. -/
def binaryOf? : Nat → Json → Option Expr
  | room + 1, j => do
    match ← Json.structure? ["op", "left", "right"] j with
    | [op, left, right] =>
      let op ← (Json.case? room op).bind BinaryOperator.ofName?
      return .binary op (← ofJson? room left) (← ofJson? room right)
    | _ => none
  | _, _ => none

/-- Reads the items of a tuple. -/
def itemsOf? : Nat → Json → Option (List Expr)
  | room + 1, .array items => items.mapM (ofJson? room)
  | _, _ => none

end

/-- The stored text of an expression. -/
def stored (e : Expr) : String := String.ofList e.toJson.text

/-- The expression with the given stored text. -/
def ofStored? (text : String) : Option Expr := do
  ofJson? Json.limit (← Json.ofText? text.toList)

/-- The expression with the given stored text, which there must be. -/
def ofStored (text : String) : Except QueryError Expr := Json.required (ofStored? text)

end RowQuery.Expr
