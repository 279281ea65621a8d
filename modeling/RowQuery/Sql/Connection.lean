import RowQuery.Query.Script
import RowQuery.Sql.Command

set_option autoImplicit false

/-! # How connections answer

A connection does not interpret the text of a command. What it does when it is asked for one is its
`Behavior`: it may refuse to make a command at all, an execution may stay suspended for a number of
polls, and then it fails, or gives a reader over a script of rows, or never comes to an end. The
behaviour that counts for a command is the one at the moment of its execution. -/

namespace RowQuery

/-- A row as a driver returns it: values without names. -/
abbrev Row := List Value

/-- What an execution comes to. -/
inductive Reply where
  /-- It never completes. -/
  | never
  | fails (e : QueryError)
  /-- A reader over a script of rows. -/
  | reader (rows : List (Item Row))

/-- How a connection answers commands. -/
structure Behavior where
  /-- Why no command can be made, if none can. -/
  refusal : Option QueryError
  /-- For how many polls an execution stays suspended. -/
  delay : Nat
  reply : Reply

namespace Behavior

/-- Answers at once with these rows. -/
def rows (rows : List Row) : Behavior := ⟨none, 0, .reader (rows.map .value)⟩

/-- Fails to execute. -/
def fail (text : String) : Behavior := ⟨none, 0, .fails (.failure text)⟩

/-- Never completes. -/
def pending : Behavior := ⟨none, 0, .never⟩

/-- Answers at once without rows. -/
def empty : Behavior := rows []

end Behavior

end RowQuery
