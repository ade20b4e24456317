import GuardElision.Yaml.Mark
import GuardElision.Yaml.Resolve

/-!
# Writing YAML

Mappings are written in block form, two columns deeper at each level. A text is written
plainly where that cannot be misread, else in single quotes; a text with line breaks as a
literal block; and in double quotes, with escapes, where neither can hold it. Settings have
no tags, so none are written.
-/

namespace GuardElision.Yaml

/-- The characters that may stand unescaped in a document. -/
def isPrintable (c : Char) : Bool :=
  let n := c.toNat
  n == 0x0A || (0x20 ≤ n && n ≤ 0x7E) || (0xA0 ≤ n && n ≤ 0xD7FF) ||
    (0xE000 ≤ n && n ≤ 0xFFFD && n != 0xFEFF) || 0x10000 ≤ n

/-- The characters that end a line, in any of their forms. -/
def endsLine (c : Char) : Bool := isBreak c || c == '\r' || c == '\u0085'

/-- The zero character and everything that ends a word. -/
def endsWord (c : Char) : Bool := isBlank c || endsLine c || c == '\x00'

/-- The characters that cannot start a plain scalar. -/
def refusedFirst (c : Char) (gapNext : Bool) : Bool :=
  match c with
  | '#' | ',' | '[' | ']' | '\x7b' | '\x7d' | '&' | '*' | '!' | '|' | '>' | '\x27' | '\x22'
  | '%' | '@' | '\x60' => true
  | '?' | ':' | '-' => gapNext
  | _ => false

/-- The characters that cannot stand inside a plain scalar, between their neighbours. -/
def refusedInside (c : Char) (gapBefore gapNext : Bool) : Bool :=
  match c with
  | ':' => gapNext
  | '#' => gapBefore
  | _ => false

/-- Whether some character from the second on cannot stand in a plain scalar. -/
def refusedFrom : (gapBefore : Bool) → List Char → Bool
  | _, [] => false
  | gapBefore, c :: rest =>
    refusedInside c gapBefore (rest.head?.all endsWord) || refusedFrom (endsWord c) rest

/-- Whether a text contains what would be taken for structure if it stood plainly. -/
def hasIndicators (text : List Char) : Bool :=
  ['-', '-', '-'].isPrefixOf text || ['.', '.', '.'].isPrefixOf text ||
    match text with
    | [] => false
    | c :: rest => refusedFirst c (rest.head?.all endsWord) || refusedFrom (endsWord c) rest

/-- Whether two neighbours of the given kinds stand side by side. -/
def hasPair (first second : Char → Bool) : List Char → Bool
  | a :: b :: rest => (first a && second b) || hasPair first second (b :: rest)
  | _ => false

/-- Whether a text must be escaped: it has unprintable characters, or a blank before a line
break. -/
def needsEscapes (text : List Char) : Bool :=
  text.any (fun c => !isPrintable c) || hasPair (· == ' ') endsLine text

/-- Whether the ends of a text would be lost if it stood plainly. -/
def hasLooseEnds (text : List Char) : Bool :=
  let loose (c : Char) := c == ' ' || endsLine c
  text.head?.any loose || text.getLast?.any loose

/-- Whether a text can stand plainly. -/
def allowsPlain (text : List Char) : Bool :=
  !text.isEmpty && !hasLooseEnds text && !needsEscapes text && !text.any endsLine &&
    !hasIndicators text

/-- Whether a text can stand in single quotes. -/
def allowsSingle (text : List Char) : Bool :=
  !needsEscapes text && !hasPair endsLine (· == ' ') text

/-- Whether a text can stand as a block. -/
def allowsLiteral (text : List Char) : Bool :=
  !text.isEmpty && !needsEscapes text && text.getLast? != some ' '

/-- The style of a text. -/
def styleOf (text : String) : Style :=
  let chars := text.toList
  if chars.contains '\n' then if allowsLiteral chars then .literal else .double
  else if !isTaken text && allowsPlain chars then .plain
  else if allowsSingle chars then .single
  else .double

/-- A hexadecimal digit in upper case. -/
def upperHex (n : Nat) : Char :=
  if n < 10 then Char.ofNat ('0'.toNat + n) else Char.ofNat ('A'.toNat + (n - 10))

/-- A number in hexadecimal, with leading zeros up to a width. -/
def hexOf : (width : Nat) → Nat → List Char
  | 0, _ => []
  | width + 1, n => hexOf width (n / 16) ++ [upperHex (n % 16)]

/-- The letter of a one-letter escape. -/
def escapeLetter? : Char → Option Char
  | '\x00' => some '0'
  | '\x07' => some 'a'
  | '\x08' => some 'b'
  | '\t' => some 't'
  | '\n' => some 'n'
  | '\x0b' => some 'v'
  | '\x0c' => some 'f'
  | '\r' => some 'r'
  | '\x1b' => some 'e'
  | '\x22' => some '\x22'
  | '\\' => some '\\'
  | '\u0085' => some 'N'
  | '\u2028' => some 'L'
  | '\u2029' => some 'P'
  | _ => none

/-- How a character is written in double quotes. -/
def escaped (c : Char) : List Char :=
  if isPrintable c && !endsLine c && c != '\x22' && c != '\\' then [c]
  else
    match escapeLetter? c with
    | some letter => ['\\', letter]
    | none =>
      let n := c.toNat
      if n ≤ 0xFF then '\\' :: 'x' :: hexOf 2 n
      else if n ≤ 0xFFFF then '\\' :: 'u' :: hexOf 4 n
      else '\\' :: 'U' :: hexOf 8 n

/-- So many blanks. -/
def indentation (n : Nat) : List Char := List.replicate n ' '

/-- The characters of a text in single quotes; what follows a line break is indented. -/
def singleFrom (indent : Nat) : (broken : Bool) → List Char → List Char
  | broken, [] => if broken then indentation indent else []
  | broken, c :: rest =>
    if endsLine c then c :: singleFrom indent true rest
    else
      (if broken then indentation indent else []) ++
        (if c == '\x27' then ['\x27', '\x27'] else [c]) ++ singleFrom indent false rest

/-- The mark for the line breaks at the end of a literal block. -/
def chompMark (text : List Char) : List Char :=
  match text.reverse with
  | [] => ['-']
  | [c] => if endsLine c then ['+'] else ['-']
  | c :: d :: _ => if !endsLine c then ['-'] else if endsLine d then ['+'] else []

/-- The lines of a literal block; what follows a line break is indented. -/
def literalFrom (indent : Nat) : (broken : Bool) → List Char → List Char
  | _, [] => []
  | broken, c :: rest =>
    if endsLine c then c :: literalFrom indent true rest
    else (if broken then indentation indent else []) ++ (c :: literalFrom indent false rest)

/-- The mark of a literal block that starts with a blank or a line break. -/
def indentMark (text : List Char) : List Char :=
  if text.head?.any fun c => c == ' ' || endsLine c then ['2'] else []

/-- Lines with a line break at their end. -/
def endLines (lines : List Char) : List Char :=
  if lines.getLast?.any endsLine then lines else lines ++ ['\n']

/-- A text as it stands behind a key in a style, up to the end of its last line; `indent` is
the column of what belongs to the key. A folded block would say the same as double quotes do,
and they are simpler. -/
def renderText (indent : Nat) (style : Style) (text : String) : List Char :=
  let chars := text.toList
  match style with
  | .plain => chars ++ ['\n']
  | .single => '\x27' :: (singleFrom indent false chars ++ ['\x27', '\n'])
  | .double | .folded => '\x22' :: (chars.flatMap escaped ++ ['\x22', '\n'])
  | .literal =>
    '|' :: (indentMark chars ++ chompMark chars ++ ['\n'] ++
      endLines (literalFrom indent true chars))

mutual

/-- The lines that belong to a key, behind its colon. -/
def renderNode (indent : Nat) : Yaml → List Char
  | .scalar _ style text => ' ' :: renderText indent style text
  | .mapping [] => [' ', '\x7b', '\x7d', '\n']
  | .mapping entries => '\n' :: renderEntries indent entries

/-- The lines of a mapping whose keys stand in a column. -/
def renderEntries (column : Nat) : List (String × Yaml) → List Char
  | [] => []
  | (key, node) :: rest =>
    indentation column ++ key.toList ++ (':' :: renderNode (column + 2) node) ++
      renderEntries column rest

end

/-- The text of a document that is a mapping. -/
def render : Yaml → String
  | .mapping entries => String.ofList (renderEntries 0 entries)
  | .scalar _ style text => String.ofList (renderText 0 style text)

end GuardElision.Yaml
