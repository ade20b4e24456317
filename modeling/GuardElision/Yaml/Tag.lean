import GuardElision.Json.Escape
import GuardElision.Yaml.Basic
import GuardElision.Yaml.Mark

/-!
# Tags

A tag is written in full between angle brackets, or as a handle and a suffix, where the
handle stands for a declared or a standing beginning. Percent signs escape the bytes of
characters, so what a tag spells is a sequence of bytes.
-/

namespace GuardElision.Yaml

/-- A tag as it is written. -/
structure TagName where
  /-- The handle; a tag written in full has none. -/
  handle : Option String
  /-- What stands behind the handle. -/
  suffix : List UInt8
  deriving DecidableEq, Repr

/-- What each handle stands for. -/
abbrev Handles := List (String × List UInt8)

/-- The bytes of a text. -/
def bytesOf (text : String) : List UInt8 := text.toUTF8.toList

/-- How the tags of the language itself start. -/
def coreLead : List Char := "tag:yaml.org,2002:".toList

/-- The handles that need no declaration. -/
def standingHandles : Handles :=
  [("!", bytesOf "!"), ("!!", bytesOf (String.ofList coreLead))]

/-- The tag that some bytes spell. -/
def Tag.ofBytes (bytes : List UInt8) : Tag :=
  match String.fromUTF8? ⟨bytes.toArray⟩ with
  | none => .foreign
  | some text =>
    match text.toList with
    | ['!'] => .custom "!"
    | '!' :: name => .custom (String.ofList name)
    | chars =>
      if coreLead.isPrefixOf chars then .core (String.ofList (chars.drop coreLead.length))
      else .foreign

/-- The tag that a written tag means; its handle must be known. -/
def TagName.resolve? (handles : Handles) (t : TagName) : Option Tag :=
  match t.handle with
  | none => some (.ofBytes t.suffix)
  | some handle => (handles.lookup handle).map fun lead => .ofBytes (lead ++ t.suffix)

/-- The characters that stand for themselves in a tag; commas and brackets only where the end
of the tag is marked. -/
def isTagChar (marked : Bool) (c : Char) : Bool :=
  isNameChar c || ";/?:@&=+$.!~*\x27()".toList.contains c ||
    (marked && (c == ',' || c == '[' || c == ']'))

/-- How many bytes follow a leading byte. -/
def followers? (byte : Nat) : Option Nat :=
  if byte < 0x80 then some 0
  else if byte < 0xC0 then none
  else if byte < 0xE0 then some 1
  else if byte < 0xF0 then some 2
  else if byte < 0xF8 then some 3
  else none

/-- Read the characters of a tag; so many bytes of a character are still missing, and the bytes
read so far come in reverse. -/
def readTagChars (marked : Bool) : (missing : Nat) → (done : List UInt8) → Marks →
    Option (List UInt8 × Marks)
  | missing, done, [] => if missing = 0 then some (done, []) else none
  | missing, done, m :: rest =>
    if m.char == '%' then
      match rest with
      | a :: b :: rest =>
        match Json.ofHex? [a.char, b.char] with
        | none => none
        | some byte =>
          let done := UInt8.ofNat byte :: done
          match missing with
          | missing + 1 =>
            if 0x80 ≤ byte ∧ byte < 0xC0 then readTagChars marked missing done rest else none
          | 0 =>
            match followers? byte with
            | some missing => readTagChars marked missing done rest
            | none => none
      | _ => none
    else if missing ≠ 0 then none
    else if isTagChar marked m.char then
      readTagChars marked 0 (UInt8.ofNat m.char.toNat :: done) rest
    else some (done, m :: rest)

/-- Read what a tag or the beginning of tags spells; a zero byte ends it. -/
def readTagText (marked : Bool) (text : Marks) : Option (List UInt8 × Marks) :=
  (readTagChars marked 0 [] text).map fun (done, rest) =>
    (done.reverse.takeWhile (· != 0), rest)

/-- Read a handle: a mark, a name, and a second mark if there is one. -/
def readHandle? : Marks → Option (List Char × Marks)
  | [] => none
  | m :: rest =>
    if m.char == '!' then
      let (name, rest) := spanChars isNameChar rest
      match rest with
      | n :: after => if n.char == '!' then some ('!' :: (name ++ ['!']), after)
          else some ('!' :: name, rest)
      | [] => some ('!' :: name, [])
    else none

/-- Whether a handle is a mark alone, or stands between two marks. -/
def isHandle (handle : List Char) : Bool :=
  handle = ['!'] || (handle.length > 1 && handle.getLast? == some '!')

/-- Read a tag that is written with a handle. -/
def readShorthand? (text : Marks) : Option (TagName × Marks) := do
  let (handle, rest) ← readHandle? text
  let spelled := rest.length
  let (suffix, after) ← readTagText false rest
  if handle.length > 1 && handle.getLast? == some '!' then
    if after.length = spelled then none
    else some (⟨some (String.ofList handle), suffix⟩, after)
  else
    match bytesOf (String.ofList (handle.drop 1)) ++ suffix with
    | [] => some (⟨none, bytesOf "!"⟩, after)
    | suffix => some (⟨some "!", suffix⟩, after)

/-- Read a tag that is written in full, behind its opening bracket. -/
def readFullTag? (text : Marks) : Option (TagName × Marks) := do
  let (suffix, after) ← readTagText true text
  match after with
  | m :: rest =>
    if m.char == '>' && after.length < text.length then some (⟨none, suffix⟩, rest) else none
  | [] => none

/-- Read a tag, from its mark on; a gap follows it, or a comma between braces. -/
def readTag? (flow : Bool) (text : Marks) : Option (TagName × Marks) := do
  let (tag, rest) ← if startsWith '<' (text.drop 1) then readFullTag? (text.drop 2)
    else readShorthand? text
  if atGap rest || (flow && startsWith ',' rest) then some (tag, rest) else none

end GuardElision.Yaml
