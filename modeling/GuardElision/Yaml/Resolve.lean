import GuardElision.Yaml.Basic

/-!
# What plain scalars stand for

A plain scalar can stand for nothing, a truth value, an integer or a floating-point number.
Whoever wants an integer takes it from here, and a text that would be taken for one of these
must not be written plainly.
-/

namespace GuardElision.Yaml

/-- The plain scalars that stand for nothing. -/
def isNull (text : String) : Bool := ["", "~", "null", "Null", "NULL"].contains text

/-- The truth value of a plain scalar. -/
def boolOf? (text : String) : Option Bool :=
  if ["true", "True", "TRUE"].contains text then some true
  else if ["false", "False", "FALSE"].contains text then some false
  else none

/-- The value of a digit in a base up to sixteen. -/
def digitOf? (base : Nat) (c : Char) : Option Nat :=
  let value :=
    if '0' ≤ c ∧ c ≤ '9' then c.toNat - '0'.toNat
    else if 'a' ≤ c ∧ c ≤ 'f' then c.toNat - 'a'.toNat + 10
    else if 'A' ≤ c ∧ c ≤ 'F' then c.toNat - 'A'.toNat + 10
    else 16
  if value < base then some value else none

/-- The number that some digits in a base denote; there must be one at least. -/
def digitsOf? (base : Nat) (digits : List Char) : Option Nat :=
  if digits.isEmpty then none
  else digits.foldlM (fun n c => (digitOf? base c).map (n * base + ·)) 0

/-- Whether a text is a zero followed by more digits, with or without a sign. -/
def hasIdleZero (text : List Char) : Bool :=
  let digits :=
    match text with
    | '+' :: rest | '-' :: rest => rest
    | _ => text
  match digits with
  | '0' :: c :: rest => (c :: rest).all Char.isDigit
  | _ => false

/-- The magnitude that an unsigned integer denotes, in base ten or in the base its mark
gives. -/
def magnitudeOf? (text : List Char) : Option Nat :=
  let marked :=
    match text with
    | '0' :: 'x' :: rest => digitsOf? 16 rest
    | '0' :: 'o' :: rest => digitsOf? 8 rest
    | '0' :: 'b' :: rest => digitsOf? 2 rest
    | _ => none
  match marked with
  | some n => some n
  | none => if hasIdleZero text then none else digitsOf? 10 text

/-- The natural number that a plain scalar denotes; a plus sign is allowed. -/
def naturalOf? (text : String) : Option Nat :=
  match text.toList with
  | '+' :: rest => magnitudeOf? rest
  | chars => magnitudeOf? chars

/-- Whether a plain scalar denotes an integer of at most 128 bits. -/
def isInteger (text : String) : Bool :=
  match text.toList with
  | '-' :: rest => (magnitudeOf? rest).any (· ≤ Nat.pow 2 127)
  | _ => (naturalOf? text).any (· < Nat.pow 2 128)

/-- Whether a decimal with the given digits and exponent stays below the range of doubles. -/
def isRepresentable (digits : List Nat) (exponent : Int) : Bool :=
  let value := digits.foldl (fun n d => n * 10 + d) 0
  let places := ((digits.dropWhile (· == 0)).length : Int) + exponent
  if value = 0 ∨ places < 300 then true
  else if places > 310 then false
  else
    let top := value * Nat.pow 10 exponent.toNat
    let bottom := Nat.pow 10 (-exponent).toNat
    top < (Nat.pow 2 1024 - Nat.pow 2 970) * bottom

/-- The digits at the front of a text, and the rest. -/
def spanDigits (text : List Char) : List Nat × List Char :=
  ((text.takeWhile Char.isDigit).map fun c => c.toNat - '0'.toNat, text.dropWhile Char.isDigit)

/-- The exponent that a text consists of; no text is the exponent zero. -/
def exponentOf? (text : List Char) : Option Int :=
  match text with
  | [] => some 0
  | e :: rest =>
    if e == 'e' || e == 'E' then
      match rest with
      | '-' :: digits => (digitsOf? 10 digits).map fun n => -(n : Int)
      | '+' :: digits => (digitsOf? 10 digits).map fun n => (n : Int)
      | digits => (digitsOf? 10 digits).map fun n => (n : Int)
    else none

/-- Whether a text is an unsigned decimal, with or without point and exponent, that is not too
large for a double. -/
def isDecimal (text : List Char) : Bool :=
  let (whole, rest) := spanDigits text
  let (fraction, rest) :=
    match rest with
    | '.' :: rest => spanDigits rest
    | _ => ([], rest)
  if whole.isEmpty && fraction.isEmpty then false
  else
    match exponentOf? rest with
    | some e => isRepresentable (whole ++ fraction) (e - (fraction.length : Int))
    | none => false

/-- The names of infinity. -/
def infinities : List String := [".inf", ".Inf", ".INF"]

/-- The names of the undefined number. -/
def undefinedNumbers : List String := [".nan", ".NaN", ".NAN"]

/-- Whether a plain scalar denotes a floating-point number. -/
def isFloating (text : String) : Bool :=
  if undefinedNumbers.contains text then true
  else
    match text.toList with
    | '+' :: rest => infinities.contains (String.ofList rest) || isDecimal rest
    | '-' :: rest => infinities.contains (String.ofList rest) || isDecimal rest
    | chars => infinities.contains text || isDecimal chars

/-- Whether a text would not be taken for a text if it stood plainly. -/
def isTaken (text : String) : Bool :=
  isNull text || (boolOf? text).isSome || isInteger text || hasIdleZero text.toList ||
    isFloating text

end GuardElision.Yaml
