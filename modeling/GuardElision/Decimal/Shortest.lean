import GuardElision.Decimal.Binary

/-!
# The shortest decimal that reads back

The doubles cut the line into intervals, each holding the reals that round to one
double. `Decimal.shortest` finds the decimal with the fewest digits inside the interval
of a given double, and of those the one nearest to it. It works on exact fractions: for
one digit, two digits and so on it tests the two neighbours of the value on that decimal
grid, and seventeen digits always suffice.
-/

namespace GuardElision.Decimal

/-- A positive decimal: `digits` with the decimal point `point` places after their start. -/
structure Numeral where
  digits : List Nat
  point : Int
  deriving DecidableEq, Repr, Inhabited

/-- The decimal digits of a natural number, most significant first. -/
def digitsOf (n : Nat) : List Nat := (Nat.toDigits 10 n).map fun c => c.toNat - '0'.toNat

/-- A positive fraction together with the ends of its rounding interval, over one
denominator. -/
structure Interval where
  low : Nat
  value : Nat
  high : Nat
  denominator : Nat
  /-- Whether the ends themselves round to the value. -/
  closed : Bool
  deriving Repr

/-- The rounding interval of a double, in quarters of its last binary place. -/
def Interval.of (x : Binary64) : Interval :=
  let m := x.significand
  let up := Nat.pow 2 (x.scale - 1076)
  { low := (if x.atBinade then 4 * m - 1 else 4 * m - 2) * up
    value := 4 * m * up
    high := (4 * m + 2) * up
    denominator := Nat.pow 2 (1076 - x.scale)
    closed := m % 2 == 0 }

/-- Whether `count` steps of size ten to the power `step` lie in the interval. -/
def Interval.holds (i : Interval) (count : Nat) (step : Int) : Bool :=
  let point := count * Nat.pow 10 step.toNat * i.denominator
  let unit := Nat.pow 10 (-step).toNat
  if i.closed then i.low * unit ≤ point && point ≤ i.high * unit
  else i.low * unit < point && point < i.high * unit

/-- The number of decimal places before the point; zero or less below one tenth. -/
def Interval.magnitude (i : Interval) : Int :=
  if i.denominator ≤ i.value then ((digitsOf (i.value / i.denominator)).length : Int)
  else
    let places := (digitsOf (i.denominator / i.value)).length
    if i.denominator ≤ i.value * Nat.pow 10 (places - 1) then 2 - (places : Int)
    else 1 - (places : Int)

/-- The neighbours of the value on the grid of the given step, nearest first. An exact
tie prefers the even neighbour. -/
def Interval.neighbours (i : Interval) (step : Int) : List Nat :=
  let top := i.value * Nat.pow 10 (-step).toNat
  let bottom := i.denominator * Nat.pow 10 step.toNat
  let below := top / bottom
  let rest := top % bottom
  if 2 * rest < bottom ∨ (2 * rest = bottom ∧ below % 2 = 0) then [below, below + 1]
  else [below + 1, below]

/-- The first decimal in the interval, trying `digits` digits and then more. -/
def Interval.search (i : Interval) : (attempts digits : Nat) → Nat × Int
  | 0, digits =>
    let step := i.magnitude - (digits : Int)
    ((i.neighbours step).headD 0, step)
  | attempts + 1, digits =>
    let step := i.magnitude - (digits : Int)
    match (i.neighbours step).find? (i.holds · step) with
    | some count => (count, step)
    | none => i.search attempts (digits + 1)

/-- A count of steps as a numeral without trailing zeros. -/
def Numeral.ofSteps (count : Nat) (step : Int) : Numeral :=
  let digits := digitsOf count
  { digits := (digits.reverse.dropWhile (· == 0)).reverse
    point := (digits.length : Int) + step }

/-- The shortest decimal that reads back as the magnitude of a finite nonzero double. -/
def shortest (x : Binary64) : Numeral :=
  let (count, step) := (Interval.of x).search 16 1
  Numeral.ofSteps count step

/-- Digits as text. -/
def textOf (digits : List Nat) : String :=
  String.ofList (digits.map fun d => Char.ofNat ('0'.toNat + d))

end GuardElision.Decimal
