import GuardElision.Json.Basic

/-!
# Decoding records and variants

How domain values are taken out of JSON. A record is an object, or an array of its
fields in their declared order. A field must not be repeated; whether unknown fields are
ignored or refused is the record's choice. A variant without data is its name, or an
object from its name to `null`; a variant with data is an object with one member. Where
the data of a variant is a record, it may be listed without names only in JSON that is
decoded from its text.
-/

namespace GuardElision.Json

/-- An integer from zero to the largest 64-bit word. -/
def word? : Json → Option UInt64
  | .number (.natural n) => some n
  | _ => none

/-- An integer from zero to the largest 32-bit word. -/
def word32? (j : Json) : Option UInt32 := do
  let n ← j.word?
  if n.toNat < UInt32.size then some (UInt32.ofNat n.toNat) else none

/-- A truth value. -/
def bool? : Json → Option Bool
  | .bool b => some b
  | _ => none

/-- A text. -/
def string? : Json → Option String
  | .string s => some s
  | _ => none

/-- Any number, as a double. -/
def real? : Json → Option Binary64
  | .number (.natural n) => some (.ofFloat n.toFloat)
  | .number (.negative n) => some (.ofFloat (-n.toFloat))
  | .number (.real x) => some x
  | _ => none

/-- An array whose items all decode. -/
def list? {α : Type} (decode : Json → Option α) : Json → Option (List α)
  | .array items => items.mapM decode
  | _ => none

/-- An array of two items. -/
def pair? {α : Type} (decode : Json → Option α) : Json → Option (α × α)
  | .array [a, b] => do return (← decode a, ← decode b)
  | _ => none

/-- The members of a record, by name. -/
abbrev Fields := List (String × Json)

/-- Whether a name has at most one member. -/
def Fields.single (fields : Fields) (name : String) : Bool :=
  (fields.filter fun m => m.1 == name).length ≤ 1

/-- The fields of a record with the given field names. -/
def fields? (names : List String) : Json → Option Fields
  | .object members => if names.all (Fields.single members) then some members else none
  | .array items => if items.length ≤ names.length then some (names.zip items) else none
  | _ => none

/-- The fields of a record that has no others than those named. -/
def onlyFields? (names : List String) (j : Json) : Option Fields := do
  let fields ← j.fields? names
  if fields.all fun m => names.contains m.1 then some fields else none

/-- A field that must be present. -/
def Fields.required {α : Type} (fields : Fields) (name : String) (decode : Json → Option α) :
    Option α :=
  (fields.lookup name).bind decode

/-- A field that may be missing, in which case it has a default. -/
def Fields.defaulted {α : Type} (fields : Fields) (name : String) (default : α)
    (decode : Json → Option α) : Option α :=
  match fields.lookup name with
  | none => some default
  | some value => decode value

/-- A field that may be missing or `null`. -/
def Fields.optional {α : Type} (fields : Fields) (name : String) (decode : Json → Option α) :
    Option (Option α) :=
  match fields.lookup name with
  | none => some none
  | some .null => some none
  | some value => (decode value).map some

/-- The member of an object for a field, left out when there is no value. -/
def optionalField {α : Type} (name : String) (encode : α → Json) : Option α → Fields
  | none => []
  | some value => [(name, encode value)]

/-- The name and the data of a variant. -/
def variant? : Json → Option (String × Option Json)
  | .string name => some (name, none)
  | .object [(name, value)] => some (name, some value)
  | _ => none

/-- One of several variants without data. -/
def choice? {α : Type} (choices : List (String × α)) (j : Json) : Option α := do
  match ← j.variant? with
  | (name, none) | (name, some .null) => choices.lookup name
  | _ => none

/-- What is decoded: a text while it is being read, or a value that was read before. -/
inductive Medium where
  /-- The decoder reads on in the text, and takes a record in either of its forms. -/
  | text
  /-- The decoder looks into a value, and takes the data of a variant by its names. -/
  | value
  deriving DecidableEq, Repr

/-- The fields of the record that is the data of a variant. -/
def variantFields? (names : List String) : Medium → Json → Option Fields
  | .value, .array _ => none
  | _, data => data.fields? names

/-- A variant with no data: its name must come without data, or with `null`. -/
def noData? : Option Json → Option Unit
  | none | some .null => some ()
  | _ => none

/-- The digits of a canonical numeral, as a word. -/
def wordOfText? (text : String) : Option UInt64 :=
  let digits := text.toList
  if digits.isEmpty || digits.any (fun c => !c.isDigit) then none
  else if digits.head? == some '0' && digits.length != 1 then none
  else
    let n := digits.foldl (fun n c => n * 10 + (c.toNat - '0'.toNat)) 0
    if n < UInt64.size then some (UInt64.ofNat n) else none

/-- An object whose names are words; of several members with one name the last counts. -/
def wordMap? {α : Type} (decode : Json → Option α) : Json → Option (List (UInt64 × α))
  | .object members => members.mapM fun (name, value) => do
      return (← wordOfText? name, ← decode value)
  | _ => none

/-- The last of the members with one name, for each name of the list. -/
def lastMembers : Fields → Fields
  | [] => []
  | m :: rest => if rest.any (fun other => other.1 == m.1) then lastMembers rest
      else m :: lastMembers rest

mutual

/-- The value with every repeated member settled: the last one counts. -/
def settle : Json → Json
  | .array items => .array (settleItems items)
  | .object members => .object (lastMembers (settleMembers members))
  | other => other

/-- The items of an array, settled. -/
def settleItems : List Json → List Json
  | [] => []
  | item :: rest => settle item :: settleItems rest

/-- The members of an object, each value settled. -/
def settleMembers : Fields → Fields
  | [] => []
  | (name, value) :: rest => (name, settle value) :: settleMembers rest

end

end GuardElision.Json
