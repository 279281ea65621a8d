import RowQuery.Value.Basic

set_option autoImplicit false

/-! # Fields of a struct

A struct holds its fields in the order in which they were added, and a name may occur more than
once. Every operation that goes by name means the *first* field of that name: `get?` reads it,
`take` hands out its value and leaves a null in its place, `append` adds a field at the end and
never looks at names. -/

namespace RowQuery

/-- The fields of a struct, in order. -/
abbrev Fields := List (String × Value)

namespace Fields

/-- The value of the first field called `name`. -/
def get? (name : String) : Fields → Option Value
  | [] => none
  | (n, v) :: rest => if n = name then some v else get? name rest

/-- The fields after `name` has been taken: the first field of that name is null, the others are as
they were. -/
def clear (name : String) : Fields → Fields
  | [] => []
  | (n, v) :: rest => if n = name then (n, .null) :: rest else (n, v) :: clear name rest

/-- Takes the first field called `name` out of the struct: its value, and the fields that are left.
-/
def take (name : String) (fields : Fields) : Option Value × Fields :=
  (fields.get? name, fields.clear name)

/-- The fields with one more at the end. -/
def append (fields : Fields) (name : String) (value : Value) : Fields :=
  fields ++ [(name, value)]

/-- The names of the fields, in order. -/
def names (fields : Fields) : List String := fields.map (·.1)

/-- Taking a field leaves all names where they are. -/
@[simp] theorem names_clear (name : String) (fields : Fields) :
    (fields.clear name).names = fields.names := by
  induction fields with
  | nil => rfl
  | cons field rest ih =>
    obtain ⟨n, v⟩ := field
    simp only [clear, names] at ih ⊢
    split <;> simp_all

/-- Where there is no field of the name, nothing is taken. -/
theorem clear_of_get?_eq_none {name : String} {fields : Fields} (h : fields.get? name = none) :
    fields.clear name = fields := by
  induction fields with
  | nil => rfl
  | cons field rest ih =>
    obtain ⟨n, v⟩ := field
    simp only [get?, clear] at h ⊢
    split at h
    · cases h
    · rename_i hn
      simp [hn, ih h]

/-- A field that has been taken reads as null from then on. -/
theorem get?_clear_self {name : String} {fields : Fields} {v : Value}
    (h : fields.get? name = some v) : (fields.clear name).get? name = some .null := by
  induction fields with
  | nil => cases h
  | cons field rest ih =>
    obtain ⟨n, w⟩ := field
    simp only [get?, clear] at h ⊢
    split at h
    · rename_i hn
      simp [get?, hn]
    · rename_i hn
      simp [get?, hn, ih h]

end Fields

end RowQuery
