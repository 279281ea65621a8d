import RowQuery.Value.Basic

set_option autoImplicit false

/-! # Values from other types

What can stand for a value. A missing value is null, a pair is a tuple. -/

namespace RowQuery

/-- Types whose elements stand for values. -/
class ToValue (α : Type) where
  toValue : α → Value

export ToValue (toValue)

instance : ToValue Bool := ⟨.boolean⟩

instance : ToValue Int32 := ⟨fun n => .int64 n.toInt64⟩

instance : ToValue Int64 := ⟨.int64⟩

instance : ToValue Float := ⟨.float64⟩

instance : ToValue String := ⟨.utf8⟩

instance : ToValue (List (String × Value)) := ⟨.struct⟩

instance : ToValue Value := ⟨id⟩

instance {α : Type} [ToValue α] : ToValue (Option α) :=
  ⟨fun
    | some a => toValue a
    | none => .null⟩

instance {α β : Type} [ToValue α] [ToValue β] : ToValue (α × β) :=
  ⟨fun (a, b) => .tuple [toValue a, toValue b]⟩

end RowQuery
