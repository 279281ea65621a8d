import RowQuery.Value.Basic
import RowQuery.Decimal.Double

set_option autoImplicit false

/-! # The text of a value

How a value is shown to a reader: numbers by their shortest decimal, text as it is without quotes,
tuples in parentheses, structs in braces with each name before its value. Different values may have
one text; the stored form, which can be read back, is in `RowQuery.Json`. -/

namespace RowQuery.Value

mutual

/-- The text of a value. -/
def text : Value → String
  | .null => "NULL"
  | .boolean b => if b then "true" else "false"
  | .int64 n => toString n.toInt
  | .float64 x => Double.text x
  | .utf8 s => s
  | .tuple values => "(" ++ ", ".intercalate (textAll values) ++ ")"
  | .struct fields => "\x7b" ++ ", ".intercalate (textFields fields) ++ "\x7d"

/-- The texts of the values of a tuple. -/
def textAll : List Value → List String
  | [] => []
  | v :: rest => text v :: textAll rest

/-- The texts of the fields of a struct: the name, a colon, the value. -/
def textFields : List (String × Value) → List String
  | [] => []
  | (name, v) :: rest => (name ++ ": " ++ text v) :: textFields rest

end

end RowQuery.Value
