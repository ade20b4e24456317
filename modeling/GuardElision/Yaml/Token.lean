import GuardElision.Yaml.Scalar
import GuardElision.Yaml.Tag

/-!
# Tokens

A text is cut into tokens before its structure is read. Outside of braces the structure is
in the indentation: a token in a new, deeper column opens a block mapping if it turns out to
be a key, and a token further to the left closes those it leaves. Whether something is a key
shows only at its colon, which must stand on the same line and not too far away; then the
token that announces a key goes in front of what has been read since. Sequences do not occur
in settings, so a text that uses them has no tokens.
-/

namespace GuardElision.Yaml

/-- The smallest parts of a text. -/
inductive Token where
  /-- The version of the language that a document declares. -/
  | version (major minor : Nat)
  /-- A handle that a document declares, with what it stands for. -/
  | handle (name : String) (lead : List UInt8)
  | documentStart
  | documentEnd
  | blockStart
  | blockEnd
  | braceOpen
  | braceClose
  | comma
  | key
  | value
  | alias (name : String)
  | anchor (name : String)
  | tag (name : TagName)
  | scalar (style : Style) (text : String)
  deriving DecidableEq, Repr

/-- How far behind the start of a key its colon may stand. -/
def longestKey : Nat := 1024

/-- A place where a key may have started. -/
structure KeyStart where
  line : Nat
  column : Nat
  /-- How many tokens come before it. -/
  before : Nat
  /-- Whether nothing but a key can stand there. -/
  required : Bool

/-- Whether a colon can belong to a key that started at a place. -/
def KeyStart.reaches (k : KeyStart) (colon : Mark) : Bool :=
  k.line == colon.line && colon.column ≤ k.column + longestKey

/-- The state of cutting a text into tokens. -/
structure Lexer where
  /-- What is left of the text. -/
  rest : Marks
  /-- The tokens so far, in reverse. -/
  found : List Token := []
  /-- How many tokens there are so far. -/
  count : Nat := 0
  /-- The columns of the open block mappings, the innermost first. -/
  columns : List Nat := []
  /-- Where a key may have started within the innermost braces. -/
  start : Option KeyStart := none
  /-- The same for what is around each open brace, the innermost first. -/
  around : List (Option KeyStart) := []
  /-- Whether a key may start here. -/
  keyAllowed : Bool := true

namespace Lexer

/-- Whether a brace is open. -/
def inFlow (l : Lexer) : Bool := !l.around.isEmpty

/-- The column of the innermost block mapping; one less than any column if there is none. -/
def indent (l : Lexer) : Int :=
  match l.columns with
  | [] => -1
  | c :: _ => c

/-- One more token, in front of the last tokens that are not among the first `before`. -/
def insert (before : Nat) (t : Token) (l : Lexer) : Lexer :=
  let later := l.count - before
  { l with found := l.found.take later ++ t :: l.found.drop later, count := l.count + 1 }

/-- One more token, and what is left of the text behind it. -/
def emit (t : Token) (rest : Marks) (l : Lexer) : Lexer :=
  { l with found := t :: l.found, count := l.count + 1, rest }

/-- Give up that a key may have started; an error if one was required. -/
def dropStart (l : Lexer) : Option Lexer :=
  if l.start.any (·.required) then none else some { l with start := none }

/-- Remember that a key may start at a place. -/
def saveStart (m : Mark) (l : Lexer) : Option Lexer :=
  if l.keyAllowed then
    l.dropStart.map fun l =>
      let required := !l.inFlow && l.indent == (m.column : Int)
      { l with start := some { line := m.line, column := m.column, before := l.count, required } }
  else some l

/-- Close the block mappings further to the right than a column. -/
def closeTo (column : Int) (l : Lexer) : Lexer :=
  if l.inFlow then l
  else
    let columns := l.columns.dropWhile fun (c : Nat) => column < (c : Int)
    let closed := l.columns.length - columns.length
    let found := List.replicate closed .blockEnd ++ l.found
    { l with columns, found, count := l.count + closed }

/-- Open a block mapping for a key in a column, unless it belongs to the innermost one. -/
def openAt (column before : Nat) (l : Lexer) : Lexer :=
  if l.inFlow || column ≤ l.indent then l
  else { l.insert before .blockStart with columns := column :: l.columns }

/-- Skip blanks, comments, line breaks and marks of the byte order; also whether a key may
start behind them. Tabs are skipped only where they cannot be taken for indentation. -/
def skipFrom (flow : Bool) : (keyAllowed comment : Bool) → Marks → Bool × Marks
  | keyAllowed, _, [] => (keyAllowed, [])
  | keyAllowed, comment, m :: rest =>
    if isBreak m.char then skipFrom flow (keyAllowed || !flow) false rest
    else if comment || m.char == '#' then skipFrom flow keyAllowed true rest
    else if m.char == ' ' || (m.char == '\t' && (flow || !keyAllowed)) ||
        (m.char == orderMark && m.column == 0) then
      skipFrom flow keyAllowed false rest
    else (keyAllowed, m :: rest)

/-- Skip to the next token. -/
def skip (l : Lexer) : Lexer :=
  let (keyAllowed, rest) := skipFrom l.inFlow l.keyAllowed false l.rest
  { l with keyAllowed, rest }

/-- Everything that is open ends here, and no key can start on this line. -/
def endDocument (l : Lexer) : Option Lexer :=
  (l.closeTo (-1)).dropStart.map fun l => { l with keyAllowed := false }

/-- Read a number of a version, of at most nine digits. -/
def readVersionNumber (text : Marks) : Option (Nat × Marks) :=
  let (digits, rest) := spanChars Char.isDigit text
  if digits.isEmpty || digits.length > 9 then none
  else some (digits.foldl (fun n c => n * 10 + (c.toNat - '0'.toNat)) 0, rest)

/-- Read the declaration of a version. -/
def readVersion (text : Marks) : Option (Token × Marks) := do
  let (major, rest) ← readVersionNumber (skipBlanks text)
  if !startsWith '.' rest then none
  else
    let (minor, rest) ← readVersionNumber (rest.drop 1)
    return (.version major minor, rest)

/-- Read the declaration of a handle. -/
def readHandleDeclaration (text : Marks) : Option (Token × Marks) := do
  let (name, rest) ← readHandle? (skipBlanks text)
  let spelling := skipBlanks rest
  let (lead, after) ← readTagText true spelling
  if isHandle name && spelling.length < rest.length && after.length < spelling.length &&
      atGap after then
    some (.handle (String.ofList name) lead, after)
  else none

/-- Read a declaration, behind its percent sign. -/
def readDeclaration (text : Marks) (l : Lexer) : Option Lexer := do
  let l ← l.endDocument
  let (name, rest) := spanChars isNameChar text
  if !atGap rest then none
  else
    let (token, rest) ←
      match String.ofList name with
      | "YAML" => readVersion rest
      | "TAG" => readHandleDeclaration rest
      | _ => none
    return l.emit token (← endLine? rest)

/-- Read the start or the end of a document, from its marker on. -/
def readMarker (t : Token) (text : Marks) (l : Lexer) : Option Lexer :=
  l.endDocument.map (emit t (text.drop 3))

/-- Read an opening brace. -/
def readBraceOpen (m : Mark) (rest : Marks) (l : Lexer) : Option Lexer :=
  (l.saveStart m).map fun l =>
    { l.emit .braceOpen rest with start := none, around := l.start :: l.around, keyAllowed := true }

/-- Read a closing brace. -/
def readBraceClose (rest : Marks) (l : Lexer) : Option Lexer := do
  let l ← l.dropStart
  match l.around with
  | [] => none
  | start :: around => return { l.emit .braceClose rest with start, around, keyAllowed := false }

/-- Read a comma. -/
def readComma (rest : Marks) (l : Lexer) : Option Lexer :=
  l.dropStart.map fun l => { l.emit .comma rest with keyAllowed := true }

/-- Read the question mark in front of a key. -/
def readKey (m : Mark) (rest : Marks) (l : Lexer) : Option Lexer :=
  if !l.inFlow && !l.keyAllowed then none
  else (l.openAt m.column l.count).dropStart.map fun l =>
    { l.emit .key rest with keyAllowed := !l.inFlow }

/-- Read the colon behind a key that started at a place. -/
def readColonOf (k : KeyStart) (rest : Marks) (l : Lexer) : Lexer :=
  let l := (l.insert k.before .key).openAt k.column k.before
  { l.emit .value rest with start := none, keyAllowed := false }

/-- Read a colon: it ends a key on its line, or follows a key with a question mark. -/
def readColon (m : Mark) (rest : Marks) (l : Lexer) : Option Lexer :=
  match l.start.filter (·.reaches m) with
  | some k => some (l.readColonOf k rest)
  | none =>
    if l.start.any (·.required) || (!l.inFlow && !l.keyAllowed) then none
    else
      let l := ({ l with start := none } : Lexer).openAt m.column l.count
      some { l.emit .value rest with keyAllowed := !l.inFlow }

/-- The characters besides a gap that may follow the name of an anchor. -/
def endsAnchor (c : Char) : Bool := "?:,]%@".toList.contains c || c == '\x7d' || c == '\x60'

/-- Read an alias or an anchor, from its mark on. -/
def readAnchor (m : Mark) (rest : Marks) (l : Lexer) : Option Lexer := do
  let l ← l.saveStart m
  let (name, rest) := spanChars isNameChar rest
  let ends := atGap rest || rest.head?.any fun n => endsAnchor n.char
  if name.isEmpty || !ends then none
  else
    let name := String.ofList name
    return { l.emit (if m.char == '*' then .alias name else .anchor name) rest with
      keyAllowed := false }

/-- Read a tag, from its mark on. -/
def readTag (m : Mark) (rest : Marks) (l : Lexer) : Option Lexer := do
  let l ← l.saveStart m
  let (name, rest) ← readTag? l.inFlow (m :: rest)
  return { l.emit (.tag name) rest with keyAllowed := false }

/-- Read a block scalar, from its mark on. -/
def readBlockScalar (m : Mark) (rest : Marks) (l : Lexer) : Option Lexer := do
  let l ← l.dropStart
  let (text, rest) ← readBlock l.indent (m :: rest)
  let style := if m.char == '|' then .literal else .folded
  return { l.emit (.scalar style text) rest with keyAllowed := true }

/-- Read a quoted scalar, from its quote on. -/
def readQuotedScalar (m : Mark) (rest : Marks) (l : Lexer) : Option Lexer := do
  let l ← l.saveStart m
  let (text, rest) ← readQuoted (m :: rest)
  let style := if m.char == '\x27' then .single else .double
  return { l.emit (.scalar style text) rest with keyAllowed := false }

/-- Read a plain scalar; a key may follow it if it ends its line. -/
def readPlainScalar (m : Mark) (rest : Marks) (l : Lexer) : Option Lexer := do
  let l ← l.saveStart m
  let (text, crossed, rest) ← readPlain l.inFlow (l.indent + 1).toNat (m :: rest)
  return { l.emit (.scalar .plain text) rest with keyAllowed := crossed }

/-- Read the token at the front of a text, from its first character on. -/
def readToken (m : Mark) (rest : Marks) (l : Lexer) : Option Lexer :=
  let text := m :: rest
  if m.char == '%' && m.column == 0 then l.readDeclaration rest
  else if isMarker '-' text then l.readMarker .documentStart text
  else if isMarker '.' text then l.readMarker .documentEnd text
  else if m.char == '\x7b' then l.readBraceOpen m rest
  else if m.char == '\x7d' then l.readBraceClose rest
  else if m.char == ',' then l.readComma rest
  else if m.char == '?' && (l.inFlow || atGap rest) then l.readKey m rest
  else if m.char == ':' && (l.inFlow || atGap rest) then l.readColon m rest
  else if m.char == '*' || m.char == '&' then l.readAnchor m rest
  else if m.char == '!' then l.readTag m rest
  else if (m.char == '|' || m.char == '>') && !l.inFlow then l.readBlockScalar m rest
  else if m.char == '\x27' || m.char == '\x22' then l.readQuotedScalar m rest
  else if startsPlain l.inFlow text then l.readPlainScalar m rest
  else none

/-- Cut what is left of a text into tokens. -/
def run : (steps : Nat) → Lexer → Option (List Token)
  | 0, _ => none
  | steps + 1, l =>
    let l := l.skip
    match l.rest with
    | [] => l.endDocument.map (·.found.reverse)
    | m :: rest =>
      match (l.closeTo m.column).readToken m rest with
      | none => none
      | some l => run steps l

end Lexer

/-- The tokens of a text; nothing if it cannot be cut into tokens. Every token takes a
character at least. -/
def tokens? (text : Marks) : Option (List Token) := Lexer.run (text.length + 1) { rest := text }

end GuardElision.Yaml
