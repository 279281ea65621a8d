import RowQuery.Error
import RowQuery.Sql.Dialect
import RowQuery.Sql.Parameter

set_option autoImplicit false

/-! # Predicates as SQL

The text of an expression in a command. Constants become placeholders, member paths from argument 0
become quoted columns, and every operator is written with parentheses around it. Bare arguments,
tuples and members of anything else have no text, nor has the remainder operator.

`Expr.render` says this by recursion. `Expr.toSql`, which is what runs, walks the expression
with a stack of tasks and a stack of finished operands, each a list of fragments of text, so that
long chains of conjunctions need no deep recursion. On a failure both leave in the binder what was
bound before the failing node. -/

namespace RowQuery

/-- The operator as it stands between its operands, with a blank on either side. -/
def BinaryOperator.sql? : BinaryOperator → Option String
  | .eq => some " = "
  | .ne => some " <> "
  | .lt => some " < "
  | .le => some " <= "
  | .ge => some " >= "
  | .gt => some " > "
  | .add => some " + "
  | .sub => some " - "
  | .mul => some " * "
  | .div => some " / "
  | .and => some " AND "
  | .or => some " OR "
  | .mod => none

namespace Expr

/-- The text of a member access, if it names a column of the table. -/
def columnText? (d : Dialect) (e : Expr) : Option String :=
  match e.memberPath? with
  | some (0, names) => some (d.quotePath names)
  | _ => none

/-! ## By recursion -/

/-- The text of an expression, by recursion: the left operand is rendered, and its constants are
bound, before the right one. -/
def render (d : Dialect) : Expr → Binder → Except RenderError String × Binder
  | .constant v, b => (.ok (b.define v).1, (b.define v).2)
  | .member base name, b =>
    match columnText? d (.member base name) with
    | some text => (.ok text, b)
    | none => (.error (.unsupportedNode (.member base name)), b)
  | .binary op left right, b =>
    match op.sql? with
    | none => (.error (.unsupportedOperator op), b)
    | some sign =>
      match render d left b with
      | (.error e, b) => (.error e, b)
      | (.ok l, b) =>
        match render d right b with
        | (.error e, b) => (.error e, b)
        | (.ok r, b) => (.ok ("(" ++ l ++ sign ++ r ++ ")"), b)
  | .argument i, b => (.error (.unsupportedNode (.argument i)), b)
  | .tuple items, b => (.error (.unsupportedNode (.tuple items)), b)

/-! ## With explicit stacks -/

/-- What is still to be done: visit an expression, or join the two operands on top. -/
inductive Task where
  | visit (e : Expr)
  | combine (sign : String)

/-- How many tasks an expression gives rise to at most. -/
def tasks : Expr → Nat
  | .binary _ left right => tasks left + tasks right + 2
  | _ => 1

/-- How many tasks a stack of them gives rise to at most. -/
def pending : List Task → Nat
  | [] => 0
  | .visit e :: rest => tasks e + pending rest
  | .combine _ :: rest => 1 + pending rest

/-- The fragments of two operands with their operator, in parentheses. -/
def joinFragments (sign : String) (left right : List String) : List String :=
  "(" :: left ++ sign :: right ++ [")"]

/-- Works off the tasks, first one first. The fragments of the operands lie on their stack in
reverse, those of the right one on top. -/
def perform (d : Dialect) : List Task → List (List String) → Binder →
    Except RenderError (List (List String)) × Binder
  | [], stack, b => (.ok stack, b)
  | .combine sign :: rest, right :: left :: stack, b =>
    perform d rest (joinFragments sign left right :: stack) b
  | .combine _ :: _, _, b =>
    (.error (.internal "missing operand fragments for binary expression"), b)
  | .visit (.constant v) :: rest, stack, b =>
    perform d rest ([(b.define v).1] :: stack) (b.define v).2
  | .visit (.member base name) :: rest, stack, b =>
    match columnText? d (.member base name) with
    | some text => perform d rest ([text] :: stack) b
    | none => (.error (.unsupportedNode (.member base name)), b)
  | .visit (.binary op left right) :: rest, stack, b =>
    match op.sql? with
    | some sign => perform d (.visit left :: .visit right :: .combine sign :: rest) stack b
    | none => (.error (.unsupportedOperator op), b)
  | .visit (.argument i) :: _, _, b => (.error (.unsupportedNode (.argument i)), b)
  | .visit (.tuple items) :: _, _, b => (.error (.unsupportedNode (.tuple items)), b)
termination_by work => pending work
decreasing_by all_goals simp only [pending, tasks]; omega

/-- The text of an expression, and the binder with its constants bound. -/
def toSql (d : Dialect) (e : Expr) (b : Binder) : Except RenderError String × Binder :=
  match perform d [.visit e] [] b with
  | (.error err, b) => (.error err, b)
  | (.ok [fragments], b) => (.ok (String.join fragments), b)
  | (.ok stack, b) =>
    (.error (.internal
      s!"expected a single fragment list after translation, found {stack.length}"), b)

end Expr

end RowQuery
