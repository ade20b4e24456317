import GuardElision.Decimal.Shortest

/-!
# Decimal notation

How a double is written: `Layout.render` lays the shortest digits out positionally in a
window of magnitudes and with an exponent outside it; `fixed` writes a set number of
places of the exact value, a half going to the even neighbour.
-/

namespace GuardElision.Decimal

/-- The decisions of a number format that writes shortest digits. -/
structure Layout where
  /-- The least position of the point that is written positionally. -/
  leastPoint : Int
  /-- The greatest position of the point that is written positionally. -/
  greatestPoint : Int
  /-- What stands between the digits and a positive exponent. -/
  risingMark : String
  /-- What stands between the digits and the magnitude of a negative exponent. -/
  fallingMark : String
  deriving Repr

/-- So many zeros. -/
def zeros (n : Nat) : List Nat := List.replicate n 0

/-- A numeral with its point in place and at least one digit on either side. -/
def positional (n : Numeral) : String :=
  if n.point ≤ 0 then "0." ++ textOf (zeros (-n.point).toNat ++ n.digits)
  else
    let whole := n.point.toNat
    let fraction := n.digits.drop whole
    textOf (n.digits.take whole ++ zeros (whole - n.digits.length)) ++ "." ++
      (if fraction.isEmpty then "0" else textOf fraction)

/-- A numeral as its first digit, the others behind the point, and an exponent. -/
def Layout.scientific (l : Layout) (n : Numeral) : String :=
  let exponent := n.point - 1
  let fraction := n.digits.drop 1
  textOf (n.digits.take 1) ++ (if fraction.isEmpty then "" else "." ++ textOf fraction) ++
    (if exponent < 0 then l.fallingMark else l.risingMark) ++ toString exponent.natAbs

/-- The text of a finite double. -/
def Layout.render (l : Layout) (x : Binary64) : String :=
  let sign := if x.negative then "-" else ""
  if x.significand = 0 then sign ++ "0.0"
  else
    let n := shortest x
    sign ++ (if l.leastPoint ≤ n.point ∧ n.point ≤ l.greatestPoint then positional n
      else l.scientific n)

/-- The nearest natural number to a fraction, a half going to the even neighbour. -/
def roundHalfEven (numerator denominator : Nat) : Nat :=
  let below := numerator / denominator
  let rest := numerator % denominator
  if denominator < 2 * rest ∨ (2 * rest = denominator ∧ below % 2 = 1) then below + 1 else below

/-- The exact value of a finite double, rounded to so many places. -/
def fixed (places : Nat) (x : Binary64) : String :=
  let top := x.significand * Nat.pow 2 (x.scale - 1074) * Nat.pow 10 places
  let units := roundHalfEven top (Nat.pow 2 (1074 - x.scale))
  let digits := digitsOf units
  let padded := zeros (places + 1 - digits.length) ++ digits
  let whole := padded.length - places
  (if x.negative then "-" else "") ++ textOf (padded.take whole) ++
    (if places = 0 then "" else "." ++ textOf (padded.drop whole))

end GuardElision.Decimal
