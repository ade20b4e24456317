import GuardElision.Json.Basic

/-!
# Reading JSON numbers

A numeral without fraction and exponent that fits a word is an integer. Every other
numeral becomes a double in two steps: the leading digits that fit one word form a
significand, and one or two multiplications by tabulated powers of ten scale it. The
result can differ from the nearest double in its last place; the steps are part of the
format, so a value reads the same everywhere. Minus zero is a double.
-/

namespace GuardElision.Json

/-- The parts of a numeral, as decimal digits. -/
structure Numeral where
  negative : Bool
  whole : List Nat
  /-- The digits behind the point, if there is a point. -/
  fraction : Option (List Nat)
  /-- The exponent, if there is one. -/
  exponent : Option Int
  deriving Repr

/-- Append digits to a significand as long as it fits a word; also how many were taken. -/
def absorb : (significand taken : Nat) → List Nat → Nat × Nat
  | significand, taken, [] => (significand, taken)
  | significand, taken, d :: rest =>
    if significand * 10 + d < UInt64.size then absorb (significand * 10 + d) (taken + 1) rest
    else (significand, taken)

/-- Ten to a power of at most 308, as the nearest double. -/
def tenTo (n : Nat) : Float := Float.ofScientific 1 false n

/-- A double times a power of ten; nothing if the result is too large. -/
def scaleByTen (x : Float) (exponent : Int) : Option Float :=
  if exponent > 308 then
    if x == 0.0 then some x else none
  else if exponent ≥ 0 then
    let y := x * tenTo exponent.toNat
    if y.isInf then none else some y
  else if exponent ≥ -308 then
    some (x / tenTo (-exponent).toNat)
  else if exponent ≥ -616 then
    some (x / tenTo 308 / tenTo (-exponent - 308).toNat)
  else
    some 0.0

/-- The double that a numeral denotes; nothing if it is too large. -/
def Numeral.toReal? (n : Numeral) : Option Binary64 := do
  let (head, taken) := absorb 0 0 n.whole
  let (significand, places) := absorb head 0 (n.fraction.getD [])
  let exponent := n.exponent.getD 0 + (n.whole.length : Int) - (taken : Int) - (places : Int)
  let x ← scaleByTen (UInt64.ofNat significand).toFloat exponent
  return .ofFloat (if n.negative then -x else x)

/-- The number that a numeral denotes; nothing if it is too large. -/
def Numeral.toNumber? (n : Numeral) : Option Number :=
  let (value, taken) := absorb 0 0 n.whole
  if n.fraction.isNone && n.exponent.isNone && taken == n.whole.length then
    if !n.negative then some (.natural (UInt64.ofNat value))
    else if value = 0 ∨ Nat.pow 2 63 < value then n.toReal?.map .real
    else some (.negative (UInt64.ofNat value))
  else n.toReal?.map .real

/-- The value of a decimal digit. -/
def digit? (c : Char) : Option Nat := if c.isDigit then some (c.toNat - '0'.toNat) else none

/-- The digits at the front of a text, and the rest. -/
def takeDigits (text : List Char) : List Nat × List Char :=
  (((text.takeWhile Char.isDigit).filterMap digit?), text.dropWhile Char.isDigit)

/-- The natural number with the given decimal digits. -/
def ofDigits (digits : List Nat) : Nat := digits.foldl (fun n d => n * 10 + d) 0

/-- Read the digits of a whole part: a zero alone, or digits that start with another. -/
def readWhole (text : List Char) : Option (List Nat × List Char) :=
  match takeDigits text with
  | ([], _) => none
  | (0 :: _ :: _, _) => none
  | found => some found

/-- Read a point and the digits behind it, if there is a point. -/
def readFraction (text : List Char) : Option (Option (List Nat) × List Char) :=
  match text with
  | '.' :: rest =>
    match takeDigits rest with
    | ([], _) => none
    | (digits, rest) => some (some digits, rest)
  | _ => some (none, text)

/-- Read the sign and the digits of an exponent. -/
def readExponentDigits (text : List Char) : Option (Int × List Char) :=
  let (negative, text) :=
    match text with
    | '-' :: rest => (true, rest)
    | '+' :: rest => (false, rest)
    | _ => (false, text)
  match takeDigits text with
  | ([], _) => none
  | (digits, rest) => some (if negative then -(ofDigits digits : Int) else ofDigits digits, rest)

/-- Read an exponent, if there is one. -/
def readExponent (text : List Char) : Option (Option Int × List Char) :=
  match text with
  | 'e' :: rest | 'E' :: rest => (readExponentDigits rest).map fun (e, rest) => (some e, rest)
  | _ => some (none, text)

/-- Read a numeral from the front of a text. -/
def readNumeral (text : List Char) : Option (Numeral × List Char) := do
  let (negative, text) :=
    match text with
    | '-' :: rest => (true, rest)
    | _ => (false, text)
  let (whole, text) ← readWhole text
  let (fraction, text) ← readFraction text
  let (exponent, text) ← readExponent text
  return ({ negative, whole, fraction, exponent }, text)

/-- The value of a numeral. -/
def Numeral.toJson (n : Numeral) : Json := n.toNumber?.elim .flawed .number

end GuardElision.Json
