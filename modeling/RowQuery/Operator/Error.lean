import RowQuery.Operator.Basic
import RowQuery.Value.Basic

set_option autoImplicit false

/-! # Errors of evaluation

Why a value could not be read, a member not be found or an operator not be applied. Each cause is a
constructor that holds what the message names; `EvalError.message` is the only place that words
them. -/

namespace RowQuery

/-- The cause of a failed evaluation. -/
inductive EvalError where
  /-- A value of one kind was asked for, and one of another kind was there. -/
  | unexpected (wanted got : DataType)
  /-- A struct without a field of that name. -/
  | noField (name : String)
  /-- A tuple of so many values without a value at the position that the name spells. -/
  | noPosition (length : Nat) (name : String)
  /-- A member of a value that has no members. -/
  | noMembers (name : String) (of : DataType)
  /-- Two values that have no order. -/
  | incomparable (left right : DataType)
  /-- An operand of a logical operator that is neither a Boolean nor null. -/
  | notLogical (op : BinaryOperator) (got : DataType)
  | divisionByZero
  /-- An exact result that does not fit in 64 bits. -/
  | overflow (left : Int64) (op : BinaryOperator) (right : Int64)
  /-- Operands that the arithmetic operator does not take. -/
  | inapplicable (op : BinaryOperator) (left right : DataType)
  /-- An expression was given the wrong number of arguments. -/
  | argumentCount (expected given : Nat)
  /-- An expression refers to an argument that it will not be given. -/
  | unboundArgument (index available : Nat)
  /-- A row lacks a column that a record needs. -/
  | missingColumn (name : String)
  /-- An element that is to become a record is not a row. -/
  | notARow (got : DataType)
  /-- A failure that a source reports in its own words. -/
  | reported (text : String)
  deriving DecidableEq

namespace EvalError

/-- The indefinite article before the name of a kind. -/
def article : DataType → String
  | .int64 => "an"
  | _ => "a"

/-- What the error says. -/
def message : EvalError → String
  | unexpected wanted got => s!"Expected {article wanted} {wanted.name}, got {got.name}"
  | noField name => s!"Struct has no member named '{name}'"
  | noPosition length name => s!"Tuple of {length} values has no member '{name}'"
  | noMembers name of => s!"Cannot access member '{name}' of a {of.name}"
  | incomparable left right => s!"Cannot compare {left.name} with {right.name}"
  | notLogical op got => s!"{op.symbol} expects Boolean operands, got {got.name}"
  | divisionByZero => "Division by zero"
  | overflow left op right => s!"Integer overflow evaluating {left.toInt} {op.symbol} {right.toInt}"
  | inapplicable op left right => s!"Cannot apply {op.symbol} to {left.name} and {right.name}"
  | argumentCount expected given => s!"Expression expects {expected} arguments, got {given}"
  | unboundArgument index available =>
    s!"Expression references argument {index}, but only {available} are available"
  | missingColumn name => s!"missing {name}"
  | notARow got => s!"Expected a row to map into a record, got {got.name}"
  | reported text => text

end EvalError

/-- What does not fail has a result. -/
theorem exists_eq_ok_iff {ε α : Type} {x : Except ε α} :
    (∃ a, x = .ok a) ↔ ∀ err, x ≠ .error err := by
  cases x with
  | error err => simp
  | ok a => simp

/-- Two steps one after the other have a result where both have one. -/
theorem bind_eq_ok_iff {ε α β : Type} {x : Except ε α} {f : α → Except ε β} {b : β} :
    (x >>= f) = .ok b ↔ ∃ a, x = .ok a ∧ f a = .ok b := by
  cases x with
  | error e =>
      constructor
      · intro h
        cases h
      · rintro ⟨a, ha, -⟩
        cases ha
  | ok a =>
      constructor
      · intro h
        exact ⟨a, rfl, h⟩
      · rintro ⟨a', ha, h⟩
        cases ha
        exact h

end RowQuery
