import GuardElision.Json.Escape
import GuardElision.Yaml.Mark

/-!
# Reading YAML scalars

Plain and quoted scalars may go over several lines; a line break between words is folded
into a blank, and further breaks stand for themselves. Block scalars keep their lines, or
fold them, behind an indentation that is removed.
-/

namespace GuardElision.Yaml

/-- The blanks and line breaks between two words of a scalar. -/
structure Gap where
  /-- Blanks before any line break, in reverse. -/
  blanks : List Char := []
  /-- Whether a line has ended. -/
  crossed : Bool := false
  /-- The first line break, unless it was escaped. -/
  first : Option Char := none
  /-- The other line breaks, in reverse. -/
  others : List Char := []

namespace Gap

/-- The gap with one more blank or line break; blanks at the start of a line do not count. -/
def extend (g : Gap) (c : Char) : Gap :=
  if isBreak c then
    if g.crossed then { g with others := c :: g.others }
    else { blanks := [], crossed := true, first := some c }
  else if g.crossed then g
  else { g with blanks := c :: g.blanks }

/-- What a gap stands for, in reverse. -/
def foldReversed (g : Gap) : List Char :=
  if !g.crossed then g.blanks
  else if g.first = some '\n' then
    if g.others.isEmpty then [' '] else g.others
  else g.others ++ g.first.toList

end Gap

/-- The characters that end a plain scalar between braces. -/
def isFlowIndicator (c : Char) : Bool :=
  c == ',' || c == '[' || c == ']' || c == '\x7b' || c == '\x7d'

/-- The characters that cannot start a plain scalar. -/
def isIndicator (c : Char) : Bool :=
  isFlowIndicator c || c == '#' || c == '&' || c == '*' || c == '!' || c == '|' || c == '>' ||
    c == '\x27' || c == '\x22' || c == '%' || c == '@' || c == '\x60'

/-- Whether a plain scalar starts here. -/
def startsPlain (flow : Bool) : Marks → Bool
  | [] => false
  | m :: rest =>
    if m.char == '-' then !atGap rest
    else if m.char == '?' || m.char == ':' then !flow && !atGap rest
    else !isIndicator m.char && !isBlank m.char && !isBreak m.char

/-- How a plain scalar goes on at a character that is no blank. -/
inductive PlainStep where
  /-- The character belongs to the scalar. -/
  | more
  /-- The scalar has ended before it. -/
  | stop
  /-- The character must not stand here. -/
  | fault

/-- Decide how a plain scalar goes on. -/
def plainStep (flow : Bool) (indent : Nat) (g : Gap) (m : Mark) (rest : Marks) : PlainStep :=
  if (g.crossed || !g.blanks.isEmpty) && m.char == '#' then .stop
  else if atDocumentMarker (m :: rest) then .stop
  else if g.crossed && !flow && m.column < indent then .stop
  else if m.char == ':' && atGap rest then .stop
  else if flow && m.char == ':' &&
      (rest.head?.any fun n => isFlowIndicator n.char || n.char == '?') then .fault
  else if flow && isFlowIndicator m.char then .stop
  else .more

/-- Read a plain scalar: its text in reverse, whether a line ended behind it, and the rest
from the next word on. -/
def readPlainFrom (flow : Bool) (indent : Nat) : (done : List Char) → Gap → Marks →
    Option (List Char × Bool × Marks)
  | done, g, [] => some (done, g.crossed, [])
  | done, g, m :: rest =>
    if isBlank m.char || isBreak m.char then
      if g.crossed && m.column < indent && m.char == '\t' then none
      else readPlainFrom flow indent done (g.extend m.char) rest
    else
      match plainStep flow indent g m rest with
      | .fault => none
      | .stop => some (done, g.crossed, m :: rest)
      | .more => readPlainFrom flow indent (m.char :: (g.foldReversed ++ done)) {} rest

/-- Read a plain scalar whose continuation lines are indented by at least `indent`. -/
def readPlain (flow : Bool) (indent : Nat) (text : Marks) : Option (String × Bool × Marks) :=
  (readPlainFrom flow indent [] {} text).map fun (done, crossed, rest) =>
    (String.ofList done.reverse, crossed, rest)

/-- Read a scalar in single quotes, behind the opening quote; a doubled quote is one. -/
def readSingleFrom : (done : List Char) → Gap → Marks → Option (List Char × Marks)
  | _, _, [] => none
  | done, g, m :: rest =>
    if isBlank m.char || isBreak m.char then readSingleFrom done (g.extend m.char) rest
    else if atDocumentMarker (m :: rest) then none
    else
      let done := g.foldReversed ++ done
      if m.char == '\x27' then
        match rest with
        | n :: rest' =>
          if n.char == '\x27' then readSingleFrom ('\x27' :: done) {} rest'
          else some (done, n :: rest')
        | [] => some (done, [])
      else readSingleFrom (m.char :: done) {} rest

/-- The character of a one-letter escape between double quotes. -/
def doubleEscape? : Char → Option Char
  | '0' => some '\x00'
  | 'a' => some '\x07'
  | 'b' => some '\x08'
  | 't' | '\t' => some '\t'
  | 'n' => some '\n'
  | 'v' => some '\x0b'
  | 'f' => some '\x0c'
  | 'r' => some '\r'
  | 'e' => some '\x1b'
  | ' ' => some ' '
  | '\x22' => some '\x22'
  | '/' => some '/'
  | '\\' => some '\\'
  | 'N' => some '\u0085'
  | '_' => some '\u00a0'
  | 'L' => some '\u2028'
  | 'P' => some '\u2029'
  | _ => none

/-- How many hexadecimal digits follow a letter. -/
def hexWidth? : Char → Option Nat
  | 'x' => some 2
  | 'u' => some 4
  | 'U' => some 8
  | _ => none

/-- The character with a number, if there is one. -/
def charOf? (n : Nat) : Option Char := if n.isValidChar then some (Char.ofNat n) else none

/-- Read a scalar in double quotes, behind the opening quote. -/
def readDoubleFrom : (steps : Nat) → (done : List Char) → Gap → Marks →
    Option (List Char × Marks)
  | 0, _, _, _ => none
  | _, _, _, [] => none
  | steps + 1, done, g, m :: rest =>
    if isBlank m.char || isBreak m.char then readDoubleFrom steps done (g.extend m.char) rest
    else if atDocumentMarker (m :: rest) then none
    else
      let done := g.foldReversed ++ done
      if m.char == '\x22' then some (done, rest)
      else if m.char == '\\' then
        match rest with
        | [] => none
        | e :: rest =>
          if isBreak e.char then readDoubleFrom steps done { crossed := true } rest
          else
            match hexWidth? e.char with
            | some width =>
              let digits := (rest.take width).map (·.char)
              if digits.length < width then none
              else
                match (Json.ofHex? digits).bind charOf? with
                | some c => readDoubleFrom steps (c :: done) {} (rest.drop width)
                | none => none
            | none =>
              match doubleEscape? e.char with
              | some c => readDoubleFrom steps (c :: done) {} rest
              | none => none
      else readDoubleFrom steps (m.char :: done) {} rest

/-- Read a quoted scalar, from its opening quote on. -/
def readQuoted : Marks → Option (String × Marks)
  | [] => none
  | m :: rest =>
    let found :=
      if m.char == '\x27' then readSingleFrom [] {} rest
      else readDoubleFrom (rest.length + 1) [] {} rest
    found.map fun (done, rest) => (String.ofList done.reverse, rest)

/-- What happens to the line breaks at the end of a block scalar. -/
inductive Chomping where
  | strip
  | clip
  | keep
  deriving DecidableEq

/-- The header of a block scalar. -/
structure BlockHeader where
  chomping : Chomping := .clip
  /-- The indentation, if it is given. -/
  increment : Option Nat := none

/-- Read the two marks of a header, which may come in either order and once each. -/
def readHeaderMarks : (seenChomping : Bool) → BlockHeader → Marks → BlockHeader × Marks
  | _, h, [] => (h, [])
  | seen, h, m :: rest =>
    if !seen && m.char == '+' then readHeaderMarks true { h with chomping := .keep } rest
    else if !seen && m.char == '-' then readHeaderMarks true { h with chomping := .strip } rest
    else if h.increment.isNone && '1' ≤ m.char && m.char ≤ '9' then
      readHeaderMarks seen { h with increment := some (m.char.toNat - '0'.toNat) } rest
    else (h, m :: rest)

/-- Skip indentation and empty lines: the line breaks in reverse, the deepest indentation
seen, and the rest. Without a known indentation all blanks are skipped. -/
def readBreaks (indent : Option Nat) : (found : List Char) → (deepest : Nat) → Marks →
    Option (List Char × Nat × Marks)
  | found, deepest, [] => some (found, deepest, [])
  | found, deepest, m :: rest =>
    let deepest := max deepest m.column
    let inside := indent.all (m.column < ·)
    if m.char == ' ' && inside then readBreaks indent found deepest rest
    else if m.char == '\t' && inside then none
    else if isBreak m.char then readBreaks indent (m.char :: found) deepest rest
    else some (found, deepest, m :: rest)

/-- The state of reading a block scalar; texts are in reverse. -/
structure BlockState where
  done : List Char := []
  /-- The line break behind the last line. -/
  last : List Char := []
  /-- The line breaks of the empty lines behind it. -/
  empty : List Char := []
  /-- Whether the last line started with a blank. -/
  indented : Bool := false

/-- Join the breaks behind the last line to what comes next: a single break between two lines
that start with words is folded in a folded scalar. -/
def BlockState.join (folded : Bool) (s : BlockState) (blankNext : Bool) : List Char :=
  let breaks :=
    if folded && s.last = ['\n'] && !s.indented && !blankNext then
      if s.empty.isEmpty then [' '] else []
    else s.last
  s.empty ++ (breaks ++ s.done)

/-- Read the lines of a block scalar that are indented by `indent`. -/
def readBlockLines (folded : Bool) (indent : Nat) : (steps : Nat) → BlockState → Marks →
    Option (BlockState × Marks)
  | 0, _, _ => none
  | _ + 1, s, [] => some (s, [])
  | steps + 1, s, m :: rest =>
    if m.column == indent then
      let blank := isBlank m.char
      let line := (m :: rest).takeWhile fun n => !isBreak n.char
      let after := (m :: rest).dropWhile fun n => !isBreak n.char
      let done := (line.map (·.char)).reverse ++ s.join folded blank
      let last := (after.head?.map (·.char)).toList
      match readBreaks (some indent) [] 0 (after.drop 1) with
      | none => none
      | some (empty, _, rest) =>
        readBlockLines folded indent steps { done, last, empty, indented := blank } rest
    else some (s, m :: rest)

/-- Read a block scalar inside a node that is indented by `parent`, from its mark on. -/
def readBlock (parent : Int) : Marks → Option (String × Marks)
  | [] => none
  | m :: rest => do
    let (header, rest) := readHeaderMarks false {} rest
    let rest ← endLine? rest
    let known := header.increment.map fun n => (max parent 0).toNat + n
    let (empty, deepest, rest) ← readBreaks known [] 0 rest
    let indent := known.getD (max deepest (max (parent + 1).toNat 1))
    let (s, rest) ← readBlockLines (m.char == '>') indent (rest.length + 1) { empty } rest
    let tail :=
      match header.chomping with
      | .strip => []
      | .clip => s.last
      | .keep => s.empty ++ s.last
    return (String.ofList (tail ++ s.done).reverse, rest)

end GuardElision.Yaml
