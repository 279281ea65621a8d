import RowQuery.Value.Text
import RowQuery.Operator.Basic

set_option autoImplicit false

/-! # Expressions

Predicates, projections and join conditions are expressions: plain data over the arguments of an
enclosing function. A filter and a projection have one argument, the element (0); a join condition
and the combination of a match have two, the outer element (0) and the inner element (1).

An expression can be looked at, to render it in the language of a database, or compiled and
evaluated here. Both care about one shape in particular, the *member path*: names followed outwards
from an argument. -/

namespace RowQuery

/-- An expression over numbered arguments. -/
inductive Expr where
  | constant (value : Value)
  | argument (index : Nat)
  /-- A named member of the value of another expression. -/
  | member (base : Expr) (name : String)
  | binary (op : BinaryOperator) (left right : Expr)
  /-- The tuple of the values of several expressions. -/
  | tuple (items : List Expr)
  deriving Inhabited

namespace Expr

/-! ## Building expressions -/

/-- The column `name` of the only argument, or of the outer element of a join. -/
def column (name : String) : Expr := .member (.argument 0) name

/-- The column `name` of the inner element of a join. -/
def innerColumn (name : String) : Expr := .member (.argument 1) name

/-- Follows member names outwards from an expression. -/
def members (base : Expr) (names : List String) : Expr := names.foldl .member base

/-- Both expressions hold. -/
def and (left right : Expr) : Expr := .binary .and left right

/-- All expressions hold, joined from the left; there is no conjunction of nothing. -/
def andAll? : List Expr → Option Expr
  | [] => none
  | e :: rest => some (rest.foldl and e)

/-! ## Member paths -/

/-- The argument at the root of a member path, and the names from the root outwards. -/
def memberPath? : Expr → Option (Nat × List String)
  | .argument i => some (i, [])
  | .member base name => (memberPath? base).map (fun (i, names) => (i, names ++ [name]))
  | _ => none

@[simp] theorem memberPath?_argument (i : Nat) : memberPath? (.argument i) = some (i, []) := rfl

/-- Following names from an argument gives a member path with those names. -/
theorem memberPath?_members (i : Nat) (names : List String) :
    memberPath? (members (.argument i) names) = some (i, names) := by
  suffices h : ∀ (base : Expr) (before : List String), memberPath? base = some (i, before) →
      memberPath? (members base names) = some (i, before ++ names) from
    h (.argument i) [] rfl
  induction names with
  | nil => intro base before h; simpa [members] using h
  | cons n rest ih =>
    intro base before h
    have step : memberPath? (.member base n) = some (i, before ++ [n]) := by
      simp [memberPath?, h]
    simpa [members] using ih (.member base n) (before ++ [n]) step

/-- An expression with a member path is built from an argument by following its names. -/
theorem eq_members_of_memberPath? (e : Expr) {i : Nat} {names : List String}
    (h : memberPath? e = some (i, names)) : e = members (.argument i) names := by
  match e with
  | .argument j =>
    simp only [memberPath?_argument, Option.some.injEq, Prod.mk.injEq] at h
    rw [← h.1, ← h.2]
    rfl
  | .member base n =>
    simp only [memberPath?, Option.map_eq_some_iff, Prod.mk.injEq] at h
    obtain ⟨⟨j, before⟩, hbase, hj, hnames⟩ := h
    subst hj hnames
    rw [eq_members_of_memberPath? base hbase]
    simp [members]
  | .constant _ | .binary .. | .tuple _ => simp [memberPath?] at h

/-! ## Text -/

/-- What an expression is called in a message. -/
def kind : Expr → String
  | .constant _ => "constant"
  | .argument _ => "variable reference"
  | .member .. => "member access"
  | .binary .. => "binary expression"
  | .tuple _ => "tuple"

mutual

/-- The text of an expression: constant text in single quotes, other constants as values, arguments
by number, and every operator in parentheses. -/
def text : Expr → String
  | .constant (.utf8 s) => "'" ++ s ++ "'"
  | .constant v => v.text
  | .argument i => "$" ++ toString i
  | .member base name => text base ++ "." ++ name
  | .binary op left right => "(" ++ text left ++ " " ++ op.symbol ++ " " ++ text right ++ ")"
  | .tuple items => "(" ++ ", ".intercalate (textAll items) ++ ")"

/-- The texts of the items of a tuple. -/
def textAll : List Expr → List String
  | [] => []
  | e :: rest => text e :: textAll rest

end

/-! ## Agreement and identity -/

mutual

/-- Two expressions agree when they have the same shape and agreeing constants, where `same`
compares floating-point numbers. -/
def agree (same : Float → Float → Bool) : Expr → Expr → Bool
  | .constant v, .constant w => v.agree same w
  | .argument i, .argument j => i == j
  | .member a m, .member b n => agree same a b && m == n
  | .binary o a b, .binary p c d => o == p && (agree same a c && agree same b d)
  | .tuple as, .tuple bs => agreeAll same as bs
  | _, _ => false

/-- Agreement item by item, for lists of one length. -/
def agreeAll (same : Float → Float → Bool) : List Expr → List Expr → Bool
  | [], [] => true
  | a :: as, b :: bs => agree same a b && agreeAll same as bs
  | _, _ => false

end

/-- Agreement with the comparison of numbers that IEEE 754 prescribes. -/
instance : BEq Expr where
  beq := agree (· == ·)

mutual

theorem agree_identity_iff (a b : Expr) : agree (fun x y => decide (x = y)) a b = true ↔ a = b := by
  match a with
  | .constant v => cases b <;> simp [agree, Value.agree_identity_iff]
  | .argument i => cases b <;> simp [agree]
  | .member base n => cases b <;> simp [agree, agree_identity_iff base]
  | .binary op l r => cases b <;> simp [agree, agree_identity_iff l, agree_identity_iff r]
  | .tuple items => cases b <;> simp [agree, agreeAll_identity_iff items]

theorem agreeAll_identity_iff (as bs : List Expr) :
    agreeAll (fun x y => decide (x = y)) as bs = true ↔ as = bs := by
  match as with
  | [] => cases bs <;> simp [agreeAll]
  | a :: as => cases bs <;> simp [agreeAll, agree_identity_iff a, agreeAll_identity_iff as]

end

/-- Identity of expressions is decidable: it is agreement where numbers are compared bit by bit. -/
instance : DecidableEq Expr := fun a b =>
  decidable_of_iff _ (agree_identity_iff a b)

end Expr

end RowQuery
