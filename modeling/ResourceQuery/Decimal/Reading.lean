import ResourceQuery.Text.Word

/-!
# Decimal — reading a number

The digits of a number are gathered in a 64-bit significand.  An integer digit that no longer fits
is dropped together with the integer digits after it, each raising the exponent by one; a fraction
digit that no longer fits is dropped together with those after it.  The significand is then scaled by
one power of ten, itself the nearest double.  This is exact for significands below `2 ^ 53` and small
exponents and otherwise within a few units in the last place.  A magnitude above the largest double
is no number; one below the smallest is zero.
-/

namespace ResourceQuery.Decimal

/-- A significand and the decimal exponent that goes with it. -/
structure Significand where
  value    : Nat
  exponent : Int

/-- The significand with one more digit, if a 64-bit word holds it. -/
def Significand.push? (s : Significand) (digit : Nat) : Option Nat :=
  let grown := 10 * s.value + digit
  if grown < UInt64.size then some grown else none

/-- Reads integer digits. -/
def Significand.integer (s : Significand) : List Nat → Significand
  | []      => s
  | d :: ds =>
    match s.push? d with
    | some grown => Significand.integer { s with value := grown } ds
    | none       => { s with exponent := s.exponent + (ds.length + 1) }

/-- Reads fraction digits. -/
def Significand.fraction (s : Significand) : List Nat → Significand
  | []      => s
  | d :: ds =>
    match s.push? d with
    | some grown => Significand.fraction ⟨grown, s.exponent - 1⟩ ds
    | none       => s

/-- The nearest double of `10 ^ n`. -/
def powerOfTen (n : Nat) : Float :=
  Float.ofScientific 1 false n

/-- Scales `x` by `10 ^ exponent`, in steps of the largest power of ten.  Two steps take every
64-bit significand to zero. -/
def scale : Nat → Float → Int → Option Float
  | steps, x, exponent =>
    if exponent.natAbs ≤ 308 then
      if 0 ≤ exponent then
        let y := x * powerOfTen exponent.natAbs
        if y.isInf then none else some y
      else some (x / powerOfTen exponent.natAbs)
    else if x == 0.0 then some x
    else if 0 ≤ exponent then none
    else
      match steps with
      | 0         => some 0.0
      | steps + 1 => scale steps (x / powerOfTen 308) (exponent + 308)

/-- The double of a significand. -/
def Significand.toFloat? (s : Significand) : Option Float :=
  scale 3 (UInt64.ofNat s.value).toFloat s.exponent

/-- The double of a number with the given integer digits, fraction digits and exponent. -/
def read? (whole part : List Nat) (power : Int) : Option Float :=
  let s := ((⟨0, 0⟩ : Significand).integer whole).fraction part
  Significand.toFloat? { s with exponent := s.exponent + power }

/-- The value of a sequence of digits. -/
def valueOf (base : Nat) (ds : List Nat) : Nat :=
  ds.foldl (fun acc d => base * acc + d) 0

end ResourceQuery.Decimal
