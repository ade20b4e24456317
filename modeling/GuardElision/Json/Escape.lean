/-!
# Quoted JSON text

Between quotes, a backslash starts an escape and control characters must be escaped. A
`\u` escape names one 16-bit unit; a character beyond the basic plane takes a pair of
them, and a text in which a unit of such a pair stands alone denotes nothing. `quote`
writes what must be escaped in its shortest form and everything else as it is.
-/

namespace GuardElision.Json

/-- What a quoted text is made of before the pairs are joined. -/
inductive Piece where
  /-- A character that stands for itself. -/
  | char (c : Char)
  /-- A character from a one-letter escape. -/
  | letter (c : Char)
  /-- A 16-bit unit from a four-digit escape. -/
  | unit (value : Nat)
  deriving DecidableEq, Repr

/-- The value of a hexadecimal digit of either case. -/
def hexDigit? (c : Char) : Option Nat :=
  if '0' ≤ c ∧ c ≤ '9' then some (c.toNat - '0'.toNat)
  else if 'a' ≤ c ∧ c ≤ 'f' then some (c.toNat - 'a'.toNat + 10)
  else if 'A' ≤ c ∧ c ≤ 'F' then some (c.toNat - 'A'.toNat + 10)
  else none

/-- The value of hexadecimal digits. -/
def ofHex? (digits : List Char) : Option Nat :=
  digits.foldlM (fun n c => (hexDigit? c).map (n * 16 + ·)) 0

/-- The character that a one-letter escape stands for. -/
def escape? : Char → Option Char
  | '\x22' => some '\x22'
  | '\\' => some '\\'
  | '/' => some '/'
  | 'b' => some '\x08'
  | 'f' => some '\x0c'
  | 'n' => some '\n'
  | 'r' => some '\r'
  | 't' => some '\t'
  | _ => none

/-- Split a text behind its opening quote into pieces, up to the closing quote; the
pieces come in reverse. -/
def readPieces : (done : List Piece) → List Char → Option (List Piece × List Char)
  | _, [] => none
  | done, c :: rest =>
    if c == '\x22' then some (done, rest)
    else if c == '\\' then
      match rest with
      | 'u' :: a :: b :: c :: d :: rest =>
        match ofHex? [a, b, c, d] with
        | some value => readPieces (.unit value :: done) rest
        | none => none
      | e :: rest =>
        match escape? e with
        | some c => readPieces (.letter c :: done) rest
        | none => none
      | [] => none
    else if c.toNat < 0x20 then none
    else readPieces (.char c :: done) rest

/-- Whether a unit opens a pair. -/
def isLeading (value : Nat) : Bool := 0xD800 ≤ value && value < 0xDC00

/-- Whether a unit closes a pair. -/
def isTrailing (value : Nat) : Bool := 0xDC00 ≤ value && value < 0xE000

/-- Join pairs of units; the pieces come in reverse, so a closing unit comes first. -/
def joinPieces : (done : List Char) → List Piece → Option (List Char)
  | done, [] => some done
  | done, .char c :: rest | done, .letter c :: rest => joinPieces (c :: done) rest
  | done, .unit low :: rest =>
    if isTrailing low then
      match rest with
      | .unit high :: rest =>
        if isLeading high then
          joinPieces (Char.ofNat (0x10000 + (high - 0xD800) * 0x400 + (low - 0xDC00)) :: done) rest
        else none
      | _ => none
    else if isLeading low then none
    else joinPieces (Char.ofNat low :: done) rest

/-- Whether a piece is an escape. -/
def Piece.isEscape : Piece → Bool
  | .char _ => false
  | _ => true

/-- A text that was read between quotes. -/
structure Quoted where
  /-- The text; nothing if it has half a pair of units. -/
  text : Option String
  /-- Whether some of it was escaped. -/
  escaped : Bool
  deriving DecidableEq, Repr

/-- Read a text behind its opening quote. -/
def readQuoted (text : List Char) : Option (Quoted × List Char) :=
  (readPieces [] text).map fun (pieces, rest) =>
    ({ text := (joinPieces [] pieces).map String.ofList, escaped := pieces.any Piece.isEscape },
      rest)

/-- A hexadecimal digit in lower case. -/
def hexChar (n : Nat) : Char :=
  if n < 10 then Char.ofNat ('0'.toNat + n) else Char.ofNat ('a'.toNat + (n - 10))

/-- How one character is written between quotes. -/
def escapeChar (c : Char) : List Char :=
  if c == '\x22' then ['\\', '\x22']
  else if c == '\\' then ['\\', '\\']
  else if c == '\x08' then ['\\', 'b']
  else if c == '\x0c' then ['\\', 'f']
  else if c == '\n' then ['\\', 'n']
  else if c == '\r' then ['\\', 'r']
  else if c == '\t' then ['\\', 't']
  else if c.toNat < 0x20 then ['\\', 'u', '0', '0', hexChar (c.toNat / 16), hexChar (c.toNat % 16)]
  else [c]

/-- A text between quotes. -/
def quote (text : String) : String :=
  "\"" ++ String.ofList (text.toList.flatMap escapeChar) ++ "\""

end GuardElision.Json
