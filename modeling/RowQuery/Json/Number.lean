import RowQuery.Decimal.Double

set_option autoImplicit false

/-! # Numbers in JSON

A number is kept as it is written: sign, digits, and the digits of a fraction and an exponent where
there are any. What it is worth depends on what is asked for. As an integer it is worth its exact
value, and only a number without fraction and exponent is worth one. As a floating-point number it
is worth what `toDouble?` makes of it: the leading digits as far as they fit in 64 bits, scaled by a
power of ten in double precision. That is the nearest double up to rounding of the scaling, and it
is the rule by which stored numbers are read everywhere in the library. -/

namespace RowQuery.Json

/-- A number as it is written. -/
structure Number where
  negative : Bool
  whole : List Char
  fraction : Option (List Char)
  /-- Whether the exponent is negative, and its digits. -/
  exponent : Option (Bool × List Char)
  deriving DecidableEq

namespace Number

/-! ## Writing -/

/-- The characters of a number. -/
def text (n : Number) : List Char :=
  (if n.negative then ['-'] else []) ++ n.whole ++
    (match n.fraction with
      | some digits => '.' :: digits
      | none => []) ++
    (match n.exponent with
      | some (negative, digits) => 'e' :: (if negative then '-' else '+') :: digits
      | none => [])

/-- A natural number. -/
def ofNat (n : Nat) : Number := ⟨false, Decimal.digitsOf n, none, none⟩

/-- An integer. -/
def ofInt (n : Int) : Number := ⟨n < 0, Decimal.digitsOf n.natAbs, none, none⟩

/-- A decimal: written plainly where its first digit is at most fifteen places before or five places
behind the ones, always with a fraction, and otherwise with an exponent. -/
def ofDecimal (negative : Bool) (d : Decimal) : Number :=
  let digits := Decimal.digitsOf d.digits
  let first : Int := digits.length + d.exponent - 1
  if -5 ≤ first ∧ first ≤ 15 then
    match Double.split d with
    | (whole, []) => ⟨negative, whole, some ['0'], none⟩
    | (whole, fraction) => ⟨negative, whole, some fraction, none⟩
  else
    let exponent := some (decide (first < 0), Decimal.digitsOf first.natAbs)
    match digits with
    | [] => ⟨negative, [], none, exponent⟩
    | [c] => ⟨negative, [c], none, exponent⟩
    | c :: rest => ⟨negative, [c], some rest, exponent⟩

/-- A double by its shortest decimal; infinities and NaN have none. -/
def ofDouble? (x : Float) : Option Number :=
  match Double.magnitude .toEven x with
  | .nan | .infinite => none
  | .zero => some ⟨Double.isNegative x, ['0'], some ['0'], none⟩
  | .decimal d => some (ofDecimal (Double.isNegative x) d)

/-! ## Reading -/

/-- Splits off the digits in front. -/
def digits (s : List Char) : List Char × List Char :=
  (s.takeWhile Char.isDigit, s.dropWhile Char.isDigit)

/-- Splits off the digits in front, of which there must be some. -/
def digits1? (s : List Char) : Option (List Char × List Char) :=
  match digits s with
  | ([], _) => none
  | split => some split

/-- Splits off the digits before the point: a zero stands alone. -/
def scanWhole? (s : List Char) : Option (List Char × List Char) :=
  match digits1? s with
  | some ('0' :: _ :: _, _) => none
  | split => split

/-- Splits off a fraction, if there is one. -/
def scanFraction? : List Char → Option (Option (List Char) × List Char)
  | '.' :: rest => (digits1? rest).map (fun (ds, after) => (some ds, after))
  | s => some (none, s)

/-- Splits off the sign of an exponent: whether it is negative. -/
def scanSign : List Char → Bool × List Char
  | '-' :: rest => (true, rest)
  | '+' :: rest => (false, rest)
  | s => (false, s)

/-- Splits off an exponent, if there is one. -/
def scanExponent? : List Char → Option (Option (Bool × List Char) × List Char)
  | c :: rest =>
    if c = 'e' ∨ c = 'E' then
      let (negative, rest) := scanSign rest
      (digits1? rest).map (fun (ds, after) => (some (negative, ds), after))
    else some (none, c :: rest)
  | [] => some (none, [])

/-- Splits off a number. -/
def scan? (s : List Char) : Option (Number × List Char) := do
  let (negative, s) :=
    match s with
    | '-' :: rest => (true, rest)
    | s => (false, s)
  let (whole, s) ← scanWhole? s
  let (fraction, s) ← scanFraction? s
  let (exponent, s) ← scanExponent? s
  return (⟨negative, whole, fraction, exponent⟩, s)

/-! ## Value -/

/-- Whether the number is written without fraction and exponent. -/
def isWhole (n : Number) : Bool := n.fraction.isNone && n.exponent.isNone

/-- The value as an unsigned 64-bit integer. -/
def toWord? (n : Number) : Option Nat :=
  let v := Decimal.ofDigits n.whole
  if n.isWhole ∧ ¬n.negative ∧ v < Nat.pow 2 64 then some v else none

/-- The value as a signed 64-bit integer. A zero with a sign is not an integer. -/
def toInt64? (n : Number) : Option Int64 :=
  let v := Decimal.ofDigits n.whole
  if n.isWhole then
    if n.negative then
      if 0 < v ∧ v ≤ Nat.pow 2 63 then some (Int64.ofInt (-v)) else none
    else if v < Nat.pow 2 63 then some (Int64.ofInt v) else none
  else none

/-- Reads on from the number `n`, digit by digit, as long as the result is below `2 ^ 64`: the
result, and the digits that are left. -/
def accumulate (n : Nat) : List Char → Nat × List Char
  | [] => (n, [])
  | c :: rest =>
    let next := n * 10 + (c.toNat - '0'.toNat)
    if next < Nat.pow 2 64 then accumulate next rest else (n, c :: rest)

/-- Ten to the power of `n`, as a double. -/
def powerOfTen (n : Nat) : Float := Float.ofScientific 1 false n

/-- Scales a double by a power of ten, in steps that a double can express. There is no result beyond
the largest double. -/
def scale? (x : Float) (e : Int) : Option Float :=
  if e.natAbs ≤ 308 then
    if 0 ≤ e then
      let y := x * powerOfTen e.natAbs
      if y.isInf then none else some y
    else some (x / powerOfTen e.natAbs)
  else if x == 0 then some x
  else if 0 ≤ e then none
  else scale? (x / powerOfTen 308) (e + 308)
termination_by e.natAbs
decreasing_by omega

/-- The value as a double. Digits before the point that do not fit count as zeros, digits behind the
point that do not fit are left out. -/
def toDouble? (n : Number) : Option Float :=
  let fraction := n.fraction.getD []
  let (leading, skipped) := accumulate 0 n.whole
  let (significand, omitted) := accumulate leading fraction
  let written : Int :=
    match n.exponent with
    | some (true, ds) => -Decimal.ofDigits ds
    | some (false, ds) => Decimal.ofDigits ds
    | none => 0
  let exponent := skipped.length - (fraction.length - omitted.length) + written
  (scale? (Double.ofInt significand) exponent).map (fun x => if n.negative then -x else x)

end Number

end RowQuery.Json
