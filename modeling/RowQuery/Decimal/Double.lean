import RowQuery.Decimal.Shortest

set_option autoImplicit false

/-! # Double precision numbers

What the library needs of 64-bit floating-point numbers beyond their four operations: the order that
IEEE 754 gives them, the nearest number to an integer, the remainder of a division, and the shortest
decimal that reads back as the number. All four are said on the sign, mantissa and exponent of the
number and not through its printed form. -/

namespace RowQuery.Double

open Float.Model (UnpackedFloat)

/-- The sign, mantissa and exponent of a number. -/
def parts (x : Float) : UnpackedFloat := x.toModel.unpack

/-- The number with the given parts, rounded to the nearest double. -/
def ofParts (u : UnpackedFloat) : Float := .ofModel (.pack u)

/-- The double nearest to an integer, ties to even. -/
def ofInt (n : Int) : Float := .ofModel (.ofInt n)

/-- How two numbers are ordered; a NaN is not ordered with anything, and the two zeros are equal. -/
def order? (x y : Float) : Option Ordering := (parts x).compare (parts y)

/-- The remainder of `x / y` with the quotient truncated toward zero: it has the sign of `x` and is
less than `y` in absolute value, and no rounding is needed. -/
def remainder (x y : Float) : Float :=
  ofParts <|
    match parts x, parts y with
    | .notANumber, _ => .notANumber
    | _, .notANumber => .notANumber
    | .infinity _, _ => .notANumber
    | _, .zero _ => .notANumber
    | u, .infinity _ => u
    | .zero s, .finite .. => .zero s
    | .finite s m e _, .finite _ n f _ =>
      let unit := min e f
      let rest := (m * Nat.pow 2 (e - unit).toNat) % (n * Nat.pow 2 (f - unit).toNat)
      if rest = 0 then .zero s else UnpackedFloat.round .binary64 s rest unit

/-- Whether the sign of a number is negative; zeros and infinities have signs, a NaN has none. -/
def isNegative (x : Float) : Bool :=
  match parts x with
  | .infinity .negative | .zero .negative | .finite .negative .. => true
  | _ => false

/-- What the absolute value of a number is written as. -/
inductive Magnitude where
  | nan
  | infinite
  | zero
  | decimal (d : Decimal)

/-- The shortest decimal of the absolute value of a number. At a power of two the next smaller
number is only half as far away as the next larger one, the smallest normal number excepted. -/
def magnitude (tie : Tie) (x : Float) : Magnitude :=
  match parts x with
  | .notANumber => .nan
  | .infinity _ => .infinite
  | .zero _ => .zero
  | .finite _ m e _ =>
    let below := if m = Nat.pow 2 52 ∧ e > Float.Model.Format.binary64.minExponent then 1 else 2
    .decimal (Decimal.shortest tie m e below)

/-! ## Positional text -/

/-- The digits of a decimal before and after the point. -/
def split (d : Decimal) : List Char × List Char :=
  let digits := Decimal.digitsOf d.digits
  let before := digits.length + d.exponent
  if 0 ≤ d.exponent then (digits ++ List.replicate d.exponent.toNat '0', [])
  else if 0 < before then (digits.take before.toNat, digits.drop before.toNat)
  else (['0'], List.replicate (-before).toNat '0' ++ digits)

/-- A number as text: positional at any size, without a point where it is integral. -/
def text (x : Float) : String :=
  let sign := if isNegative x then "-" else ""
  match magnitude .up x with
  | .nan => "NaN"
  | .infinite => sign ++ "inf"
  | .zero => sign ++ "0"
  | .decimal d =>
    match split d with
    | (whole, []) => sign ++ String.ofList whole
    | (whole, fraction) => sign ++ String.ofList (whole ++ '.' :: fraction)

end RowQuery.Double
