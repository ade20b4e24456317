import GuardElision.Json.Numeral
import GuardElision.Json.Escape

/-!
# Reading JSON

`Json.draft?` reads one well-formed value that makes up a whole text, and marks as flawed
what denotes nothing: it is no fault in a part that is passed over. `Json.parse?` reads a
value that denotes something throughout. Values nest at most `Json.deepest` deep. The
recursion follows a step count that the length of the text bounds, since every step reads
at least one character.
-/

namespace GuardElision.Json

/-- How deep arrays and objects may nest. -/
def deepest : Nat := 127

/-- The characters that may stand between tokens. -/
def isBlank (c : Char) : Bool := c == ' ' || c == '\n' || c == '\t' || c == '\r'

/-- A text without the blanks at its front. -/
def skipBlanks (text : List Char) : List Char := text.dropWhile isBlank

/-- Read a fixed word from the front of a text. -/
def readWord (word : String) (value : Json) (text : List Char) : Option (Json × List Char) :=
  if word.toList.isPrefixOf text then some (value, text.drop word.length) else none

/-- What a draft says about the name of a member: a name that spells digits by escapes is no
number, so it keeps a mark in front that no number has. -/
def draftName (q : Quoted) (name : String) : String :=
  if q.escaped && name.toList.all Char.isDigit then "\\" ++ name else name

/-- The members of an object that are read so far, in reverse; nothing once a name denotes
nothing. -/
abbrev Members := Option (List (String × Json))

/-- One more member. -/
def Members.push (draft : Bool) (done : Members) (q : Quoted) (value : Json) : Members := do
  let name ← q.text
  return (if draft then draftName q name else name, value) :: (← done)

/-- The object with the given members. -/
def Members.toJson (done : Members) : Json :=
  match done with
  | some members => .object members.reverse
  | none => .flawed

mutual

/-- Read a value from the front of a text; `depth` more levels of nesting are sound. -/
def readValue (draft : Bool) : (steps depth : Nat) → List Char → Option (Json × List Char)
  | 0, _, _ => none
  | steps + 1, depth, text =>
    match skipBlanks text with
    | [] => none
    | c :: rest =>
      if c == '\x22' then
        (readQuoted rest).map fun (q, rest) => (q.text.elim .flawed .string, rest)
      else if c == '[' || c == '\x7b' then
        if depth = 0 && !draft then none
        else
          let found : Option (Json × List Char) :=
            if c == '[' then
              match skipBlanks rest with
              | ']' :: rest => some (.array [], rest)
              | rest => readItems draft steps (depth - 1) [] rest
            else
              match skipBlanks rest with
              | '\x7d' :: rest => some (.object [], rest)
              | rest => readMembers draft steps (depth - 1) (some []) rest
          found.map fun (value, rest) => (if depth = 0 then .flawed else value, rest)
      else if c == 't' then readWord "true" (.bool true) (c :: rest)
      else if c == 'f' then readWord "false" (.bool false) (c :: rest)
      else if c == 'n' then readWord "null" .null (c :: rest)
      else (readNumeral (c :: rest)).map fun (n, rest) => (n.toJson, rest)

/-- Read the items of an array up to its end; the earlier ones come in reverse. -/
def readItems (draft : Bool) : (steps depth : Nat) → List Json → List Char →
    Option (Json × List Char)
  | 0, _, _, _ => none
  | steps + 1, depth, done, text =>
    match readValue draft steps depth text with
    | none => none
    | some (item, rest) =>
      match skipBlanks rest with
      | ',' :: rest => readItems draft steps depth (item :: done) rest
      | ']' :: rest => some (.array (item :: done).reverse, rest)
      | _ => none

/-- Read the members of an object up to its end. -/
def readMembers (draft : Bool) : (steps depth : Nat) → Members → List Char →
    Option (Json × List Char)
  | 0, _, _, _ => none
  | steps + 1, depth, done, text =>
    match skipBlanks text with
    | '\x22' :: rest =>
      match readQuoted rest with
      | none => none
      | some (name, rest) =>
        match skipBlanks rest with
        | ':' :: rest =>
          match readValue draft steps depth rest with
          | none => none
          | some (value, rest) =>
            let done := done.push draft name value
            match skipBlanks rest with
            | ',' :: rest => readMembers draft steps depth done rest
            | '\x7d' :: rest => some (done.toJson, rest)
            | _ => none
        | _ => none
    | _ => none

end

/-- The value that makes up a whole text. -/
def readAll (draft : Bool) (text : String) : Option Json :=
  let chars := text.toList
  match readValue draft (2 * chars.length + 2) deepest chars with
  | some (value, rest) => if (skipBlanks rest).isEmpty then some value else none
  | none => none

/-- The value that a whole text denotes, where what denotes nothing is marked. -/
def draft? (text : String) : Option Json := readAll true text

/-- The value that a whole text denotes. -/
def parse? (text : String) : Option Json := (readAll false text).filter isSound

end GuardElision.Json
