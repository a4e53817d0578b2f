import ResourceQuery.Decimal.Reading

/-!
# Decimal — the nearest double

Reading a number to the double nearest to it.  A magnitude that rounds beyond the largest double is no
number; one that rounds below the smallest is zero.
-/

namespace ResourceQuery.Decimal

/-- The least magnitude that rounds beyond the largest double: half a unit in the last place above
it. -/
def overflowBound : Nat :=
  (Nat.pow 2 54 - 1) * Nat.pow 2 970

/-- The double nearest to the number with the given integer digits, fraction digits and exponent.  Its
magnitude lies below `10 ^ order` and not below `10 ^ (order - 1)`, which settles the extremes without
large powers. -/
def nearest? (whole part : List Nat) (power : Int) : Option Float :=
  let digits := (whole ++ part).dropWhile (· = 0)
  let exponent := power - part.length
  let order := digits.length + exponent
  if digits.isEmpty || order < -330 then some 0.0
  else if 309 < order then none
  else
    let n := valueOf 10 digits
    let scale := Nat.pow 10 exponent.natAbs
    let tooLarge :=
      if 0 ≤ exponent then overflowBound ≤ n * scale else overflowBound * scale ≤ n
    if tooLarge then none else some (Float.ofScientific n (exponent < 0) exponent.natAbs)

end ResourceQuery.Decimal
