import RowQuery.Operator.Error
import RowQuery.Decimal.Double

set_option autoImplicit false

/-! # Applying an operator

`BinaryOperator.eval` applies an operator to two operands that have been evaluated already.

* A logical operator takes Booleans and nulls and follows three-valued logic, where null is
  "unknown": a false operand decides a conjunction and a true operand a disjunction, whatever the
  other operand is.
* Every other operator gives null as soon as one operand is null.
* A comparison orders two Booleans, two texts or two numbers, integers being compared with
  floating-point numbers as the nearest double.
* Arithmetic on two integers is exact or fails; where a floating-point number takes part it is that
  of double precision, and only a division by zero fails. -/

namespace RowQuery.BinaryOperator

/-- How two values are ordered, where they can be. Texts are ordered by code point. -/
def order? : Value → Value → Option Ordering
  | .boolean a, .boolean b => some (compare a b)
  | .int64 a, .int64 b => some (compare a b)
  | .float64 a, .float64 b => Double.order? a b
  | .int64 a, .float64 b => Double.order? (Double.ofInt a.toInt) b
  | .float64 a, .int64 b => Double.order? a (Double.ofInt b.toInt)
  | .utf8 a, .utf8 b => some (compare a b)
  | _, _ => none

/-- Whether a comparison holds of operands that are so ordered. The operators that do not compare
hold of nothing. -/
def holds : BinaryOperator → Ordering → Bool
  | eq, o => o == .eq
  | ne, o => o != .eq
  | lt, o => o == .lt
  | le, o => o != .gt
  | ge, o => o != .lt
  | gt, o => o == .gt
  | _, _ => false

/-- Compares two values that are not null. -/
def compared (op : BinaryOperator) (left right : Value) : Except EvalError Value :=
  match order? left right with
  | some o => .ok (.boolean (op.holds o))
  | none => .error (.incomparable left.datatype right.datatype)

/-! ## Three-valued logic -/

/-- A truth value, where `none` is unknown. -/
abbrev Truth := Option Bool

/-- The truth value of an operand of `op`. -/
def truth (op : BinaryOperator) : Value → Except EvalError Truth
  | .null => .ok none
  | .boolean b => .ok (some b)
  | v => .error (.notLogical op v.datatype)

/-- False if one side is false, true if both are true, otherwise unknown. -/
def Truth.and : Truth → Truth → Truth
  | some false, _ => some false
  | _, some false => some false
  | some true, some true => some true
  | _, _ => none

/-- True if one side is true, false if both are false, otherwise unknown. -/
def Truth.or : Truth → Truth → Truth
  | some true, _ => some true
  | _, some true => some true
  | some false, some false => some false
  | _, _ => none

/-- A truth value as a value; unknown is null. -/
def Truth.toValue : Truth → Value
  | some b => .boolean b
  | none => .null

/-- Joins two truth values. The left operand is examined first. -/
def joined (op : BinaryOperator) (left right : Value) : Except EvalError Value := do
  let a ← op.truth left
  let b ← op.truth right
  return (if op = .and then Truth.and a b else Truth.or a b).toValue

/-! ## Arithmetic -/

/-- The exact result of integer arithmetic: division truncates toward zero and the remainder has the
sign of the left operand. The operators that are not arithmetic, and divisions by zero, have none.
-/
def exactResult? : BinaryOperator → Int → Int → Option Int
  | add, a, b => some (a + b)
  | sub, a, b => some (a - b)
  | mul, a, b => some (a * b)
  | div, a, b => if b = 0 then none else some (a.tdiv b)
  | mod, a, b => if b = 0 then none else some (a.tmod b)
  | _, _, _ => none

/-- The integer as a 64-bit integer, if it is one. -/
def fit? (n : Int) : Option Int64 :=
  if Int64.minValue.toInt ≤ n ∧ n ≤ Int64.maxValue.toInt then some (Int64.ofInt n) else none

/-- Whether the operator divides its left operand by its right one. -/
def divides : BinaryOperator → Bool
  | div | mod => true
  | _ => false

/-- Arithmetic on two integers. The remainder of the least integer by minus one counts as an
overflow, because the quotient that belongs to it does not fit. -/
def integers (op : BinaryOperator) (a b : Int64) : Except EvalError Value :=
  if op.divides ∧ b = 0 then .error .divisionByZero
  else if op = .mod ∧ a = Int64.minValue ∧ b = -1 then .error (.overflow a op b)
  else
    match (op.exactResult? a.toInt b.toInt).bind fit? with
    | some n => .ok (.int64 n)
    | none => .error (.overflow a op b)

/-- Arithmetic on two numbers in double precision. -/
def doubles (op : BinaryOperator) (a b : Float) : Except EvalError Value :=
  if op.divides ∧ Double.order? b 0 = some .eq then .error .divisionByZero
  else
    .ok <| .float64 <|
      match op with
      | .add => a + b
      | .sub => a - b
      | .mul => a * b
      | .div => a / b
      | _ => Double.remainder a b

/-- Arithmetic on two values that are not null. -/
def computed (op : BinaryOperator) : Value → Value → Except EvalError Value
  | .int64 a, .int64 b => op.integers a b
  | .float64 a, .float64 b => op.doubles a b
  | .int64 a, .float64 b => op.doubles (Double.ofInt a.toInt) b
  | .float64 a, .int64 b => op.doubles a (Double.ofInt b.toInt)
  | left, right => .error (.inapplicable op left.datatype right.datatype)

/-- Applies the operator to two operands. -/
def eval (op : BinaryOperator) (left right : Value) : Except EvalError Value :=
  if op.isLogical then op.joined left right
  else if left.isNull || right.isNull then .ok .null
  else if op.isComparison then op.compared left right
  else op.computed left right

end RowQuery.BinaryOperator
