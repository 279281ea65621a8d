set_option autoImplicit false

/-! # Verbosity

How much a program is asked to say of what it does, from how often it was asked to say more. -/

namespace RowQuery

/-- The least severe messages that are shown. -/
inductive Verbosity where
  | info | debug | trace
  deriving DecidableEq

namespace Verbosity

/-- Nothing asked for shows information, one request debugging messages, more requests everything.
-/
def ofCount : Nat → Verbosity
  | 0 => info
  | 1 => debug
  | _ => trace

/-- The name of the verbosity. -/
def name : Verbosity → String
  | info => "Info"
  | debug => "Debug"
  | trace => "Trace"

/-- The name of the level of messages that it shows. -/
def level : Verbosity → String
  | info => "INFO"
  | debug => "DEBUG"
  | trace => "TRACE"

end Verbosity

end RowQuery
