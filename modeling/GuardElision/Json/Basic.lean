import GuardElision.Decimal.Binary

/-!
# JSON values

Reports, programs and classifiers are exchanged as JSON. An integer of one word is kept
exactly and apart from every other number, because identifiers and counts accept only
such integers; all other numbers are doubles. Objects keep their members in the order
and multiplicity of the text. A text can hold values that are well formed and yet denote
nothing; they have a place among the values because what nobody asks for is not judged.
-/

namespace GuardElision

/-- A JSON number. -/
inductive Json.Number where
  /-- An integer from zero to the largest word. -/
  | natural (value : UInt64)
  /-- Minus a positive integer. -/
  | negative (magnitude : UInt64)
  /-- Anything else. -/
  | real (value : Binary64)
  deriving DecidableEq, Repr, Inhabited

/-- A JSON value. -/
inductive Json where
  | null
  | bool (value : Bool)
  | number (value : Json.Number)
  | string (value : String)
  | array (items : List Json)
  | object (members : List (String × Json))
  /-- A well-formed value that denotes nothing: a number too large for a double, a text or a
  name with half a pair of units, or a value that nests too deep. -/
  | flawed
  deriving Repr, Inhabited

namespace Json

/-- An integer of one word. -/
def word (n : UInt64) : Json := .number (.natural n)

/-- The value of a member; of several members with one name the last counts. -/
def member? (name : String) : Json → Option Json
  | .object members => (members.reverse.find? fun m => m.1 == name).map (·.2)
  | _ => none

mutual

/-- Whether a value denotes something, with all that it contains. -/
def isSound : Json → Bool
  | .flawed => false
  | .array items => areSound items
  | .object members => haveSound members
  | _ => true

/-- Whether all items of an array are sound. -/
def areSound : List Json → Bool
  | [] => true
  | item :: rest => item.isSound && areSound rest

/-- Whether all members of an object are sound. -/
def haveSound : List (String × Json) → Bool
  | [] => true
  | (_, value) :: rest => value.isSound && haveSound rest

end

end Json

end GuardElision
