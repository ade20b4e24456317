import GuardElision.Decimal.Layout
import GuardElision.Json.Escape
import GuardElision.Json.Basic

/-!
# Writing JSON

Values are written on one line without blanks. A double is written with the fewest
digits that read back, positionally from one hundred-thousandth up to ten to the
sixteenth, and always with a point or an exponent, so that it stays apart from integers.
What denotes nothing is written as nothing.
-/

namespace GuardElision.Json

/-- How doubles are written. -/
def realLayout : Decimal.Layout :=
  { leastPoint := -4, greatestPoint := 16, risingMark := "e+", fallingMark := "e-" }

/-- The text of a number; a double that is no number has the text of nothing. -/
def Number.render : Number → String
  | .natural n => toString n.toNat
  | .negative n => "-" ++ toString n.toNat
  | .real x => if x.isFinite then realLayout.render x else "null"

mutual

/-- The text of a value. -/
def render : Json → String
  | .null | .flawed => "null"
  | .bool true => "true"
  | .bool false => "false"
  | .number n => n.render
  | .string s => quote s
  | .array items => "[" ++ renderItems items ++ "]"
  | .object members => "\x7b" ++ renderMembers members ++ "\x7d"

/-- The items of an array, with commas between them. -/
def renderItems : List Json → String
  | [] => ""
  | [item] => render item
  | item :: rest => render item ++ "," ++ renderItems rest

/-- The members of an object, with commas between them. -/
def renderMembers : List (String × Json) → String
  | [] => ""
  | [(name, value)] => quote name ++ ":" ++ render value
  | (name, value) :: rest => quote name ++ ":" ++ render value ++ "," ++ renderMembers rest

end

end GuardElision.Json
