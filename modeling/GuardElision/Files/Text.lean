/-!
# Bytes as text

The text that the bytes of a file show. Bytes that form no character are shown as the
replacement character, one for each longest run of bytes that starts a character and cannot
go on.
-/

namespace GuardElision.Bytes

/-- A character of which some bytes have been seen. -/
structure Started where
  /-- The bits so far. -/
  value : Nat
  /-- How many bytes are missing. -/
  missing : Nat
  /-- The least and the greatest byte that can come next. -/
  least : Nat := 0x80
  greatest : Nat := 0xBF
  deriving DecidableEq, Repr

/-- What a leading byte starts. The second byte is bounded where the shortest form, the units
of pairs and the last code point ask for it. -/
def lead? (byte : Nat) : Option Started :=
  if byte < 0xC2 then none
  else if byte < 0xE0 then some { value := byte - 0xC0, missing := 1 }
  else if byte < 0xF0 then
    let least := if byte = 0xE0 then 0xA0 else 0x80
    let greatest := if byte = 0xED then 0x9F else 0xBF
    some { value := byte - 0xE0, missing := 2, least, greatest }
  else if byte < 0xF5 then
    let least := if byte = 0xF0 then 0x90 else 0x80
    let greatest := if byte = 0xF4 then 0x8F else 0xBF
    some { value := byte - 0xF0, missing := 3, least, greatest }
  else none

/-- What stands for bytes that form no character. -/
def replacement : Char := '\ufffd'

/-- Take a byte where no character has been started: what is shown, and what is started. -/
def first (byte : Nat) : List Char × Option Started :=
  if byte < 0x80 then ([Char.ofNat byte], none)
  else
    match lead? byte with
    | some s => ([], some s)
    | none => ([replacement], none)

/-- Take one more byte: what is shown, and what is started. -/
def advance (started : Option Started) (byte : Nat) : List Char × Option Started :=
  match started with
  | none => first byte
  | some s =>
    if s.least ≤ byte ∧ byte ≤ s.greatest then
      let value := s.value * 64 + (byte - 0x80)
      if s.missing ≤ 1 then ([Char.ofNat value], none)
      else ([], some { value, missing := s.missing - 1 })
    else
      let (shown, started) := first byte
      (replacement :: shown, started)

/-- The characters that bytes show. -/
def showFrom : Option Started → List UInt8 → List Char
  | none, [] => []
  | some _, [] => [replacement]
  | started, b :: rest =>
    let (shown, started) := advance started b.toNat
    shown ++ showFrom started rest

/-- The text that bytes show. -/
def text (bytes : List UInt8) : String := String.ofList (showFrom none bytes)

end GuardElision.Bytes
