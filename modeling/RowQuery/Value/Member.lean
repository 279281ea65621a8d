import RowQuery.Value.Fields
import RowQuery.Operator.Error
import RowQuery.Decimal.Shortest

set_option autoImplicit false

/-! # Reading a value

A value is read as one of the scalar kinds, or through one of its members. The members of a struct
are its fields, by name; the members of a tuple are its values, by position, where the position is
spelled in decimal digits. -/

namespace RowQuery.Value

/-- The value as a Boolean. -/
def asBoolean : Value → Except EvalError Bool
  | .boolean b => .ok b
  | v => .error (.unexpected .boolean v.datatype)

/-- The value as a 64-bit integer. -/
def asInt64 : Value → Except EvalError Int64
  | .int64 n => .ok n
  | v => .error (.unexpected .int64 v.datatype)

/-- The value as text. -/
def asText : Value → Except EvalError String
  | .utf8 s => .ok s
  | v => .error (.unexpected .utf8 v.datatype)

/-- The position that a member name spells: decimal digits, after an optional plus sign, of a number
below `2 ^ 64`. -/
def position? (name : String) : Option Nat :=
  let digits :=
    match name.toList with
    | '+' :: rest => rest
    | all => all
  if digits ≠ [] ∧ digits.all Char.isDigit ∧ Decimal.ofDigits digits < Nat.pow 2 64 then
    some (Decimal.ofDigits digits)
  else none

/-- The member of a value that `name` denotes. -/
def member (name : String) : Value → Except EvalError Value
  | .struct fields =>
    match Fields.get? name fields with
    | some v => .ok v
    | none => .error (.noField name)
  | .tuple values =>
    match (position? name).bind (fun i => values[i]?) with
    | some v => .ok v
    | none => .error (.noPosition values.length name)
  | v => .error (.noMembers name v.datatype)

/-- A struct has the members that are among its fields. -/
theorem member_struct_eq_ok_iff {name : String} {fields : Fields} {v : Value} :
    member name (.struct fields) = .ok v ↔ fields.get? name = some v := by
  rw [member]
  cases Fields.get? name fields <;> simp

/-- A tuple has the members whose names spell its positions. -/
theorem member_tuple_eq_ok_iff {name : String} {values : List Value} {v : Value} :
    member name (.tuple values) = .ok v ↔ ∃ i, position? name = some i ∧ values[i]? = some v := by
  rw [member, ← Option.bind_eq_some_iff]
  cases (position? name).bind (fun i => values[i]?) <;> simp

/-- Follows a path of member names, from the value outwards. -/
def memberAt : List String → Value → Except EvalError Value
  | [], v => .ok v
  | name :: rest, v => do memberAt rest (← member name v)

/-- The value as a predicate: a null counts as false. -/
def asPredicate : Value → Except EvalError Bool
  | .null => .ok false
  | v => v.asBoolean

end RowQuery.Value
