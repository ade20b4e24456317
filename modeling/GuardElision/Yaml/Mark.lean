/-!
# Marked text

A YAML text is read as a list of characters, each with its line and its column, because
indentation, line starts and line ends decide what a character means.
-/

namespace GuardElision.Yaml

/-- A character with its place in the text. -/
structure Mark where
  char : Char
  line : Nat
  column : Nat
  deriving Repr

/-- What remains to be read of a text. -/
abbrev Marks := List Mark

/-- The characters that end a line. -/
def isBreak (c : Char) : Bool := c == '\n' || c == '\u2028' || c == '\u2029'

/-- Blanks and tabs. -/
def isBlank (c : Char) : Bool := c == ' ' || c == '\t'

/-- The characters of names: letters, digits, low lines and hyphens. -/
def isNameChar (c : Char) : Bool := c.isAlphanum || c == '_' || c == '-'

/-- Whether a text goes on with a blank, with a new line or not at all. -/
def atGap : Marks → Bool
  | [] => true
  | m :: _ => isBlank m.char || isBreak m.char

/-- Whether the next character is the given one. -/
def startsWith (c : Char) : Marks → Bool
  | [] => false
  | m :: _ => m.char == c

/-- Whether three times the given character, and then a gap, comes next at the start of a
line. -/
def isMarker (c : Char) : Marks → Bool
  | a :: b :: d :: rest =>
    a.column == 0 && a.char == c && b.char == c && d.char == c && atGap rest
  | _ => false

/-- Whether a document starts or ends here. -/
def atDocumentMarker (text : Marks) : Bool := isMarker '-' text || isMarker '.' text

/-- The mark of the byte order, which may open a line. -/
def orderMark : Char := '\ufeff'

/-- The characters a document may contain. -/
def isAllowed (c : Char) : Bool :=
  let n := c.toNat
  n == 0x09 || n == 0x0A || n == 0x0D || (0x20 ≤ n && n ≤ 0x7E) || n == 0x85 ||
    (0xA0 ≤ n && n ≤ 0xD7FF) || (0xE000 ≤ n && n ≤ 0xFFFD) || 0x10000 ≤ n

/-- The text with one kind of line break for those that mean the same. -/
def unifyBreaks : List Char → List Char
  | '\r' :: '\n' :: rest => '\n' :: unifyBreaks rest
  | c :: rest => (if c == '\r' || c == '\u0085' then '\n' else c) :: unifyBreaks rest
  | [] => []

/-- The text with the place of each character, from a place on. -/
def markFrom : (line column : Nat) → List Char → Marks
  | _, _, [] => []
  | line, column, c :: rest =>
    ⟨c, line, column⟩ ::
      (if isBreak c then markFrom (line + 1) 0 rest else markFrom line (column + 1) rest)

/-- A text ready for reading; nothing if it contains a character it must not. -/
def mark? (text : String) : Option Marks :=
  if text.toList.all isAllowed then some (markFrom 0 0 (unifyBreaks text.toList)) else none

/-- The characters at the front of a text that satisfy a condition, and the rest. -/
def spanChars (p : Char → Bool) (text : Marks) : List Char × Marks :=
  ((text.takeWhile fun m => p m.char).map (·.char), text.dropWhile fun m => p m.char)

/-- A text without the blanks and tabs at its front. -/
def skipBlanks (text : Marks) : Marks := text.dropWhile fun m => isBlank m.char

/-- Skip blanks and a comment up to the end of a line, and the line break; nothing if
something else stands there. -/
def endLine? (text : Marks) : Option Marks :=
  let rest := skipBlanks text
  let rest := if startsWith '#' rest then rest.dropWhile fun m => !isBreak m.char else rest
  match rest with
  | [] => some []
  | m :: rest => if isBreak m.char then some rest else none

end GuardElision.Yaml
