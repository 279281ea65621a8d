set_option autoImplicit false

/-! # Options of commands

What holds for every command that a database context issues. -/

namespace RowQuery

/-- A span of time: whole seconds, and less than a second of nanoseconds beyond them. -/
structure Duration where
  seconds : Nat
  nanoseconds : Nat
  nanoseconds_lt : nanoseconds < 1000000000
  deriving DecidableEq

namespace Duration

/-- So many seconds and nanoseconds; a billion nanoseconds are carried over as a second. -/
def ofParts (seconds nanoseconds : Nat) : Duration where
  seconds := seconds + nanoseconds / 1000000000
  nanoseconds := nanoseconds % 1000000000
  nanoseconds_lt := Nat.mod_lt _ (by decide)

/-- Whole seconds. -/
def ofSeconds (seconds : Nat) : Duration := ⟨seconds, 0, by decide⟩

end Duration

/-- Options of the commands of a database context. -/
structure SqlOptions where
  commandTimeout : Duration
  deriving DecidableEq

namespace SqlOptions

/-- Thirty seconds for a command. -/
def default : SqlOptions := ⟨.ofSeconds 30⟩

/-- The same options with another timeout. -/
def withCommandTimeout (o : SqlOptions) (timeout : Duration) : SqlOptions :=
  { o with commandTimeout := timeout }

end SqlOptions

end RowQuery
