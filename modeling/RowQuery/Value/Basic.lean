set_option autoImplicit false

/-! # Values

What flows through a query, and what stands as a constant in an expression: scalars, tuples (values
by position) and structs (values by name, in order, where a name may occur more than once).

Values are compared in two ways that differ on floating-point numbers only. *Identity* (`=`) tells
`0.0` from `-0.0` and takes a NaN to be itself; it is the equality that theorems use. *Agreement*
(`==`) follows IEEE 754: the two zeros agree and a NaN agrees with nothing. Both are instances of
`Value.agree`, which takes the comparison of numbers as an argument. -/

namespace RowQuery

/-- The kind of a value. -/
inductive DataType where
  | null | boolean | int64 | float64 | utf8 | tuple | struct
  deriving DecidableEq, Inhabited

namespace DataType

/-- All kinds, in the order in which they are declared. -/
def all : List DataType := [null, boolean, int64, float64, utf8, tuple, struct]

/-- The name of the kind, in messages and in stored table descriptions. -/
def name : DataType → String
  | null => "Null"
  | boolean => "Boolean"
  | int64 => "Int64"
  | float64 => "Float64"
  | utf8 => "Utf8"
  | tuple => "Tuple"
  | struct => "Struct"

/-- The kind with the given name. -/
def ofName? (s : String) : Option DataType :=
  all.find? (fun t => t.name = s)

theorem ofName?_name (t : DataType) : ofName? t.name = some t := by
  cases t <;> decide

end DataType

/-- A value: an element of a stream, or a constant of an expression. -/
inductive Value where
  | null
  | boolean (b : Bool)
  | int64 (n : Int64)
  | float64 (x : Float)
  | utf8 (s : String)
  /-- Values by position, such as the result of a join. -/
  | tuple (values : List Value)
  /-- Values by name, such as a row of a table. -/
  | struct (fields : List (String × Value))
  deriving Inhabited

namespace Value

/-- The kind of a value. -/
def datatype : Value → DataType
  | null => .null
  | boolean _ => .boolean
  | int64 _ => .int64
  | float64 _ => .float64
  | utf8 _ => .utf8
  | tuple _ => .tuple
  | struct _ => .struct

/-- Null stands for an unknown value. -/
def isNull : Value → Bool
  | null => true
  | _ => false

theorem isNull_iff {v : Value} : v.isNull = true ↔ v = .null := by
  cases v <;> simp [isNull]

/-! ## Agreement and identity -/

mutual

/-- Two values agree when they have the same shape, the same names in the same order, and the same
leaves, where `same` compares floating-point numbers. -/
def agree (same : Float → Float → Bool) : Value → Value → Bool
  | .null, .null => true
  | .boolean a, .boolean b => a == b
  | .int64 a, .int64 b => a == b
  | .float64 a, .float64 b => same a b
  | .utf8 a, .utf8 b => a == b
  | .tuple as, .tuple bs => agreeAll same as bs
  | .struct fs, .struct gs => agreeFields same fs gs
  | _, _ => false

/-- Agreement element by element, for lists of one length. -/
def agreeAll (same : Float → Float → Bool) : List Value → List Value → Bool
  | [], [] => true
  | a :: as, b :: bs => agree same a b && agreeAll same as bs
  | _, _ => false

/-- Agreement field by field: names are equal and values agree. -/
def agreeFields (same : Float → Float → Bool) :
    List (String × Value) → List (String × Value) → Bool
  | [], [] => true
  | (m, a) :: fs, (n, b) :: gs => m == n && (agree same a b && agreeFields same fs gs)
  | _, _ => false

end

/-- Agreement with the comparison of numbers that IEEE 754 prescribes. -/
instance : BEq Value where
  beq := agree (· == ·)

mutual

theorem agree_identity_iff (a b : Value) :
    agree (fun x y => decide (x = y)) a b = true ↔ a = b := by
  match a with
  | .null => cases b <;> simp [agree]
  | .boolean _ => cases b <;> simp [agree]
  | .int64 _ => cases b <;> simp [agree]
  | .float64 _ => cases b <;> simp [agree]
  | .utf8 _ => cases b <;> simp [agree]
  | .tuple as => cases b <;> simp [agree, agreeAll_identity_iff as]
  | .struct fs => cases b <;> simp [agree, agreeFields_identity_iff fs]

theorem agreeAll_identity_iff (as bs : List Value) :
    agreeAll (fun x y => decide (x = y)) as bs = true ↔ as = bs := by
  match as with
  | [] => cases bs <;> simp [agreeAll]
  | a :: as => cases bs <;> simp [agreeAll, agree_identity_iff a, agreeAll_identity_iff as]

theorem agreeFields_identity_iff (fs gs : List (String × Value)) :
    agreeFields (fun x y => decide (x = y)) fs gs = true ↔ fs = gs := by
  match fs with
  | [] => cases gs <;> simp [agreeFields]
  | (n, a) :: fs =>
    cases gs <;>
      simp [agreeFields, agree_identity_iff a, agreeFields_identity_iff fs, Prod.ext_iff, and_assoc]

end

/-- Identity of values is decidable: it is agreement where numbers are compared bit by bit. -/
instance : DecidableEq Value := fun a b =>
  decidable_of_iff _ (agree_identity_iff a b)

end Value

end RowQuery
