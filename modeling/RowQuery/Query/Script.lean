import RowQuery.Error

set_option autoImplicit false

/-! # Scripts

A source of rows whose behaviour is fixed in advance follows a script: a list of things to answer,
one for each time it is asked. An error does not end a script; the end of the list does. -/

namespace RowQuery

/-- One entry of a script. -/
inductive Item (α : Type) where
  | value (a : α)
  | error (e : QueryError)
  /-- Not ready: to be asked again later. -/
  | pending
  deriving DecidableEq

end RowQuery
