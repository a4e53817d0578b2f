import ResourceQuery.Decimal.Shortest

/-!
# Decimal — how a double is written

A layout says which magnitudes are written positionally, whether a whole number keeps a `.0`, and
how ties between two shortest decimals go.  Two layouts are in use: `Layout.json` for numbers in
JSON text and `Layout.plain` for values shown as text.
-/

namespace ResourceQuery.Decimal

/-- The choices of a decimal notation. -/
structure Layout where
  /-- The positions of the decimal point, counted from the first digit, that are written out. -/
  positional : Int → Bool
  /-- A whole number in positional notation ends in `.0`. -/
  pointZero  : Bool
  tie        : Tie

/-- Magnitudes from `1e-5` up to but not including `1e16` are positional, all others have one digit
before the point and an exponent with its sign. -/
def Layout.json : Layout :=
  ⟨fun p => -4 ≤ p && p ≤ 16, true, .even⟩

/-- Every magnitude is positional, and a whole number has no point. -/
def Layout.plain : Layout :=
  ⟨fun _ => true, false, .up⟩

/-- A text of `n` zeros. -/
def zeros (n : Nat) : String :=
  String.ofList (List.replicate n '0')

/-- The digits with the decimal point `point` places after the first one. -/
def positionalText (pointZero : Bool) (digits : List Char) (point : Int) : String :=
  if point ≤ 0 then "0." ++ zeros (-point).toNat ++ String.ofList digits
  else if digits.length ≤ point.toNat then
    String.ofList digits ++ zeros (point.toNat - digits.length) ++ if pointZero then ".0" else ""
  else
    String.ofList (digits.take point.toNat) ++ "." ++ String.ofList (digits.drop point.toNat)

/-- The digits with a point after the first one and the exponent. -/
def scientificText (digits : List Char) (point : Int) : String :=
  let fraction := digits.drop 1
  let mark := if fraction.isEmpty then "" else "."
  let sign := if point - 1 < 0 then "e-" else "e+"
  String.ofList (digits.take 1) ++ mark ++ String.ofList fraction ++ sign ++
    toString (point - 1).natAbs

/-- A finite double in a layout; the sign of zero is kept. -/
def Layout.write (layout : Layout) (x : Float) : String :=
  let sign := if x.toBits ≥ 0x8000000000000000 then "-" else ""
  let d := shortest layout.tie x
  if d.digits = 0 then sign ++ if layout.pointZero then "0.0" else "0"
  else
    let digits := Nat.toDigits 10 d.digits
    let point := (digits.length : Int) + d.scale
    sign ++
      if layout.positional point then positionalText layout.pointZero digits point
      else scientificText digits point

end ResourceQuery.Decimal
