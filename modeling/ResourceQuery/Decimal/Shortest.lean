/-!
# Decimal — the fewest digits that read back

A finite positive double is `m · 2 ^ q`.  The reals nearer to it than to any other double form an
interval, which holds its two ends when `m` is even.  The shortest decimal of the double is the
point of that interval on the coarsest grid of multiples of a power of ten; where two neighbouring
grid points lie in the interval the nearer one is taken, and an exact tie goes as the format says.
All arithmetic is exact, on natural numbers.
-/

namespace ResourceQuery.Decimal

/-- The number `digits · 10 ^ scale`. -/
structure Scaled where
  digits : Nat
  scale  : Int
  deriving DecidableEq, Inhabited

/-- The neighbour an exact tie goes to. -/
inductive Tie where
  | even
  | up
  deriving DecidableEq

/-- A positive binary number `mantissa · 2 ^ exponent`; `narrow` says that the next smaller double
is at half the distance of the next larger one. -/
structure Binary where
  mantissa : Nat
  exponent : Int
  narrow   : Bool

/-- The absolute value of a finite double. -/
def Binary.ofFloat (x : Float) : Binary :=
  let bits := x.toBits.toNat
  let fraction : Nat := bits % Nat.pow 2 52
  let field : Nat := bits / Nat.pow 2 52 % Nat.pow 2 11
  if field = 0 then ⟨fraction, -1074, false⟩
  else ⟨fraction + Nat.pow 2 52, Int.ofNat field - 1075, fraction = 0 && field > 1⟩

/-- A quarter of the unit in the last place over a power of ten, as a quotient of naturals. -/
def quarterUnits (b : Binary) (scale : Int) : Nat × Nat :=
  let e := b.exponent - 2
  (Nat.pow 2 e.toNat * Nat.pow 10 (-scale).toNat, Nat.pow 2 (-e).toNat * Nat.pow 10 scale.toNat)

/-- The point of the grid of multiples of `10 ^ scale` that stands for `b`, if one lies in the
interval of the reals that round to `b`. -/
def onGrid? (tie : Tie) (b : Binary) (scale : Int) : Option Nat :=
  let (num, den) := quarterUnits b scale
  let value := 4 * b.mantissa * num
  let low := (4 * b.mantissa - if b.narrow then 1 else 2) * num
  let high := (4 * b.mantissa + 2) * num
  let closed := b.mantissa % 2 = 0
  let within := fun (d : Nat) =>
    0 < d ∧ if closed then low ≤ d * den ∧ d * den ≤ high else low < d * den ∧ d * den < high
  let below := value / den
  let rest := 2 * (value % den)
  let above := below + 1
  if within below then
    if within above then
      if rest < den then some below
      else if den < rest then some above
      else match tie with
        | .up   => some above
        | .even => if below % 2 = 0 then some below else some above
    else some below
  else if within above then some above
  else none

/-- The first grid with a point, tried from `10 ^ scale` towards finer ones. -/
def search (tie : Tie) (b : Binary) : Nat → Int → Scaled
  | 0,        scale => ⟨0, scale⟩
  | fuel + 1, scale =>
    match onGrid? tie b scale with
    | some d => ⟨d, scale⟩
    | none   => search tie b fuel (scale - 1)

/-- The shortest decimal of the absolute value of a finite double; zero for zero.  The search
starts above the value, and twenty grids reach past its seventeenth digit. -/
def shortest (tie : Tie) (x : Float) : Scaled :=
  let b := Binary.ofFloat x
  if b.mantissa = 0 then ⟨0, 0⟩
  else search tie b 22 (((b.mantissa.log2 : Int) + b.exponent + 1) * 30103 / 100000 + 2)

end ResourceQuery.Decimal
