set_option autoImplicit false

/-! # Binary operators

The thirteen operators that an expression may apply to two operands. They fall into three groups,
and the group decides how an operator treats its operands: comparisons and arithmetic let a null
through, the two logical operators do not. -/

namespace RowQuery

/-- An operator that joins two operands. -/
inductive BinaryOperator where
  | eq | ne | lt | le | ge | gt
  | add | sub | mul | div | mod
  | and | or
  deriving DecidableEq, Inhabited

namespace BinaryOperator

/-- All operators, in the order in which they are declared. -/
def all : List BinaryOperator :=
  [eq, ne, lt, le, ge, gt, add, sub, mul, div, mod, and, or]

/-- The six operators whose result says how the operands are ordered. -/
def isComparison : BinaryOperator → Bool
  | eq | ne | lt | le | ge | gt => true
  | _ => false

/-- The two operators of three-valued logic. -/
def isLogical : BinaryOperator → Bool
  | and | or => true
  | _ => false

/-- The symbol that stands for the operator in the text of an expression. -/
def symbol : BinaryOperator → String
  | eq => "="
  | ne => "!="
  | lt => "<"
  | le => "<="
  | ge => ">="
  | gt => ">"
  | add => "+"
  | sub => "-"
  | mul => "*"
  | div => "/"
  | mod => "%"
  | and => "AND"
  | or => "OR"

/-- The name of the operator, as stored expressions and error messages spell it. -/
def name : BinaryOperator → String
  | eq => "Eq"
  | ne => "Ne"
  | lt => "Lt"
  | le => "Le"
  | ge => "Ge"
  | gt => "Gt"
  | add => "Add"
  | sub => "Sub"
  | mul => "Mul"
  | div => "Div"
  | mod => "Mod"
  | and => "And"
  | or => "Or"

/-- The operator with the given name. -/
def ofName? (s : String) : Option BinaryOperator :=
  all.find? (fun op => op.name = s)

/-- Names tell the operators apart, so a stored name can be read back. -/
theorem ofName?_name (op : BinaryOperator) : ofName? op.name = some op := by
  cases op <;> decide

/-- No operator is both a comparison and logical. -/
theorem isLogical_eq_false_of_isComparison {op : BinaryOperator} (h : op.isComparison = true) :
    op.isLogical = false := by
  cases op <;> simp_all [isComparison, isLogical]

end BinaryOperator

end RowQuery
