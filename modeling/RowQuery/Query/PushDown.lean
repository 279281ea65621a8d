set_option autoImplicit false

/-! # Push-down

The kinds of operator that a source may be able to carry out itself, and the record of what sources
are handed. What comes about by handing operators to sources is a `Handing`: a call is on its record
because it has been made on the way to the value. -/

namespace RowQuery

/-- A kind of operator. -/
inductive PushDown where
  | filter | project | innerJoin
  deriving DecidableEq, Inhabited

namespace PushDown

/-- All kinds, in the order in which they are declared. -/
def all : List PushDown := [filter, project, innerJoin]

/-- What the kind is called in a message. -/
def name : PushDown → String
  | filter => "filter"
  | project => "project"
  | innerJoin => "inner join"

end PushDown

/-- A value, with the calls that were made on the way to it: sources, each with the operator that it
was handed. -/
structure Handing (σ ω α : Type) where
  value : α
  calls : List (σ × ω)

namespace Handing

variable {σ ω α β : Type}

instance : Monad (Handing σ ω) where
  pure a := ⟨a, []⟩
  bind h f := ⟨(f h.value).value, h.calls ++ (f h.value).calls⟩

theorem pure_eq (a : α) : (pure a : Handing σ ω α) = ⟨a, []⟩ := rfl

theorem bind_eq (h : Handing σ ω α) (f : α → Handing σ ω β) :
    h >>= f = ⟨(f h.value).value, h.calls ++ (f h.value).calls⟩ := rfl

end Handing

end RowQuery
