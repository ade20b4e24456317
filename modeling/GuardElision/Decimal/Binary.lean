/-!
# Doubles by their bits

Ratios and percentages are IEEE-754 doubles. A double is stored as its bit pattern, so
that two of them can be compared for identity, and its exact value is read off the
pattern as a natural significand times a power of two.
-/

namespace GuardElision

/-- A double, identified with its 64-bit pattern. -/
structure Binary64 where
  bits : UInt64
  deriving DecidableEq, Repr, Inhabited

namespace Binary64

/-- The pattern of a computed value. -/
def ofFloat (x : Float) : Binary64 := ⟨x.toBits⟩

/-- The value to compute with. -/
def toFloat (x : Binary64) : Float := Float.ofBits x.bits

/-- The sign bit. -/
def negative (x : Binary64) : Bool := x.bits.toNat / Nat.pow 2 63 == 1

/-- The eleven exponent bits. -/
def exponentField (x : Binary64) : Nat := x.bits.toNat / Nat.pow 2 52 % Nat.pow 2 11

/-- The fifty-two fraction bits. -/
def fractionField (x : Binary64) : Nat := x.bits.toNat % Nat.pow 2 52

/-- Whether the pattern is that of a number, not of an infinity or an undefined value. -/
def isFinite (x : Binary64) : Bool := x.exponentField != Nat.pow 2 11 - 1

/-- The significand of the magnitude: the fraction, with its leading bit if it has one. -/
def significand (x : Binary64) : Nat :=
  if x.exponentField = 0 then x.fractionField else Nat.pow 2 52 + x.fractionField

/-- The magnitude is the significand times two to this power, less 1074. -/
def scale (x : Binary64) : Nat := x.exponentField - 1

/-- Whether the next smaller double is at half the distance of the next larger one. -/
def atBinade (x : Binary64) : Bool := x.fractionField == 0 && x.exponentField > 1

end Binary64

end GuardElision
