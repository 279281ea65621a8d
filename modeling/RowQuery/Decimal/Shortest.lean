set_option autoImplicit false

/-! # The shortest decimal of a binary number

A positive binary number `m * 2 ^ q` stands for every real that rounds to it. The decimals of `n`
digits form a grid; the shortest decimal is the one on the coarsest grid that has a point among
those reals, and of the points there the one nearest to the number. If a grid has any such point
then one of the two grid points next to the number is one, so only those two are tested, in exact
integer arithmetic. Where both are equally near, the caller decides with a `Tie`. -/

namespace RowQuery

/-- The number `digits * 10 ^ exponent`. -/
structure Decimal where
  digits : Nat
  exponent : Int
  deriving DecidableEq, Inhabited

/-- What is chosen when two decimals are equally near: the larger one, or the one with an even last
digit. -/
inductive Tie where
  | up | toEven
  deriving DecidableEq

namespace Decimal

/-- The decimal digits of a natural number; zero has one. -/
def digitsOf (n : Nat) : List Char := Nat.toDigits 10 n

/-- The natural number that a row of decimal digits spells. -/
def ofDigits (digits : List Char) : Nat := Nat.ofDigitChars 10 digits 0

theorem ofDigits_digitsOf (n : Nat) : ofDigits (digitsOf n) = n :=
  Nat.ofDigitChars_toDigits (by decide) (by decide)

/-- How many decimal digits a natural number has. -/
def length (n : Nat) : Nat := (digitsOf n).length

/-- The decimal without zeros at the end of its digits. -/
def reduced (digits : Nat) (exponent : Int) : Decimal :=
  if h : digits ≠ 0 ∧ digits % 10 = 0 then reduced (digits / 10) (exponent + 1)
  else ⟨digits, exponent⟩
termination_by digits
decreasing_by omega

/-- The positive ratio `num / den` times two to the `q`, as a ratio of natural numbers. -/
def scale (num den : Nat) (q : Int) : Nat × Nat :=
  (num * Nat.pow 2 q.toNat, den * Nat.pow 2 (-q).toNat)

/-- The exponent `e` with `10 ^ (e - 1) ≤ num / den < 10 ^ e`. -/
def magnitude (num den : Nat) : Int :=
  if den ≤ num then length (num / den) else 1 - length ((den - 1) / num)

/-- The point of the grid `10 ^ e` that is chosen for the number `m * 2 ^ q`, if one of the two
points next to the number rounds to it. The reals that do lie between `m * 4 - below` and
`m * 4 + 2` quarter units, ends included when `m` is even. -/
def onGrid? (tie : Tie) (m : Nat) (q : Int) (below : Nat) (e : Int) : Option Nat :=
  let (num, den) := scale (Nat.pow 10 (-e).toNat) (Nat.pow 10 e.toNat) (q - 2)
  let lower := m * 4 * num / den
  let rounds (c : Nat) : Bool :=
    if m % 2 = 0 then
      (m * 4 - below) * num ≤ c * den && c * den ≤ (m * 4 + 2) * num
    else
      (m * 4 - below) * num < c * den && c * den < (m * 4 + 2) * num
  match rounds lower, rounds (lower + 1) with
  | false, false => none
  | true, false => some lower
  | false, true => some (lower + 1)
  | true, true =>
    match compare (2 * (m * 4 * num)) ((2 * lower + 1) * den), tie with
    | .lt, _ => some lower
    | .gt, _ => some (lower + 1)
    | .eq, .up => some (lower + 1)
    | .eq, .toEven => if lower % 2 = 0 then some lower else some (lower + 1)

/-- The shortest decimal of the number `m * 2 ^ q`, where the next smaller number is `below / 2`
units of `2 ^ (q - 1)` away. Seventeen digits always suffice for a mantissa of 53 bits. -/
def shortest (tie : Tie) (m : Nat) (q : Int) (below : Nat) : Decimal :=
  let (num, den) := scale m 1 q
  let top := magnitude num den
  let grids := (List.range 17).map (fun (n : Nat) => top - 1 - n)
  match grids.findSome? (fun e => (onGrid? tie m q below e).map (fun c => (c, e))) with
  | some (c, e) => reduced c e
  | none => reduced (m * 4 * num / (4 * den)) 0

end Decimal

end RowQuery
