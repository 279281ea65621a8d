set_option autoImplicit false

/-! # Things by name

A short list of names and what they stand for. The first entry of a name counts; `set` puts a new
entry in front and removes the older ones. -/

namespace RowQuery

/-- Things by name. -/
abbrev Named (α : Type) := List (String × α)

namespace Named

variable {α : Type}

/-- What a name stands for. -/
def get? (entries : Named α) (name : String) : Option α := List.lookup name entries

/-- The entries without those of a name. -/
def erase (entries : Named α) (name : String) : Named α := entries.filter (fun e => e.1 ≠ name)

/-- The entries, where `name` stands for `a`. -/
def set (entries : Named α) (name : String) (a : α) : Named α := (name, a) :: entries.erase name

/-- A name stands for what it was set to last. -/
theorem get?_set_self (entries : Named α) (name : String) (a : α) :
    (entries.set name a).get? name = some a := by
  simp [set, get?]

/-- An erased name stands for nothing. -/
theorem get?_erase_self (entries : Named α) (name : String) :
    (entries.erase name).get? name = none := by
  simp only [get?, erase, List.lookup_eq_none_iff, List.mem_filter, decide_eq_true_eq]
  rintro ⟨n, a⟩ ⟨_, h⟩
  simpa using Ne.symm h

end Named

end RowQuery
