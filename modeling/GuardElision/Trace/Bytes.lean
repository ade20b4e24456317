import GuardElision.Files.Failure
import GuardElision.Trace.Record

/-!
# Coverage traces

A trace is the sequence of the records of all checks, in the order in which the checks are
enumerated. Each record takes four little-endian words: the check's number, its total, and
the two counts. The stored total is not trusted: reading recomputes it.

A trace belongs to a list of checks. It must hold exactly their records in their order;
the first record that is missing, or that belongs to another check, decides the failure.
Whatever a trace is read from may also fail by itself, when it is opened or behind some bytes.
-/

namespace GuardElision

/-- Why coverage evidence could not be obtained. -/
inductive EvidenceError where
  /-- There is no trace at a path. -/
  | absent (path : String)
  /-- The trace ends before all checks have a record. -/
  | truncated (expected read : Nat)
  /-- The trace goes on behind the last check. -/
  | trailingRecords (expected : Nat)
  /-- A record belongs to another check. -/
  | idMismatch (position : Nat) (expected found : CheckId)
  /-- The trace could not be read. -/
  | unreadable (cause : FileFailure)
  deriving DecidableEq, Repr

/-- The report of a failure. -/
def EvidenceError.message : EvidenceError → String
  | .absent path => "coverage trace not found: " ++ path
  | .truncated expected read =>
    "coverage trace truncated: expected " ++ toString expected ++ " records, read " ++
      toString read
  | .trailingRecords expected =>
    "coverage trace has records beyond the " ++ toString expected ++ " enumerated checks"
  | .idMismatch position expected found =>
    "coverage record " ++ toString position ++ " has id " ++ found.display ++ ", expected " ++
      expected.display
  | .unreadable cause => "coverage trace I/O error: " ++ cause.message

/-- What a trace is read from, each time from its start: what opening it gives. -/
abbrev TraceSource := Except EvidenceError ByteStream

/-- A trace held in memory. -/
def TraceSource.memory (bytes : List UInt8) : TraceSource := .ok { bytes }

namespace Trace

/-- The eight bytes of a word, least significant first. -/
def wordBytes (w : UInt64) : List UInt8 :=
  (List.range 8).map fun i => UInt8.ofNat (w.toNat / Nat.pow 256 i % 256)

/-- The word of some bytes, least significant first. -/
def wordOf (bytes : List UInt8) : UInt64 :=
  UInt64.ofNat (bytes.foldr (fun b n => b.toNat + 256 * n) 0)

/-- Split a word off the front of a trace. -/
def takeWord? : List UInt8 → Option (UInt64 × List UInt8)
  | b0 :: b1 :: b2 :: b3 :: b4 :: b5 :: b6 :: b7 :: rest =>
    some (wordOf [b0, b1, b2, b3, b4, b5, b6, b7], rest)
  | _ => none

/-- Split a record off the front of a trace. -/
def takeRecord? (bytes : List UInt8) : Option (Record × List UInt8) := do
  let (id, bytes) ← takeWord? bytes
  let (_, bytes) ← takeWord? bytes
  let (left, bytes) ← takeWord? bytes
  let (right, bytes) ← takeWord? bytes
  return ({ id := ⟨id⟩, left, right }, bytes)

/-- The bytes of one record. -/
def recordBytes (r : Record) : List UInt8 :=
  wordBytes r.id.number ++ wordBytes r.total ++ wordBytes r.left ++ wordBytes r.right

/-- The trace of some records. -/
def encode (records : List Record) : List UInt8 := records.flatMap recordBytes

/-- Why there is no record where the bytes run out: that is their end, or reading on failed. -/
def shortfall (expected position : Nat) : Option FileFailure → EvidenceError
  | none | some .unexpectedEnd => .truncated expected position
  | some cause => .unreadable cause

/-- Read the records of the checks from position `position` on, from bytes behind which there may
be a failure; `expected` checks in all. -/
def decodeFrom (expected : Nat) (fault : Option FileFailure) : (position : Nat) → List Check →
    List UInt8 → Except EvidenceError (List Record)
  | _, [], [] =>
    match fault with
    | none => .ok []
    | some cause => .error (.unreadable cause)
  | _, [], _ :: _ => .error (.trailingRecords expected)
  | position, c :: checks, bytes =>
    match takeRecord? bytes with
    | none => .error (shortfall expected position fault)
    | some (r, bytes) =>
      if r.id = c.id then do
        let rest ← decodeFrom expected fault (position + 1) checks bytes
        return r :: rest
      else .error (.idMismatch position c.id r.id)

/-- The records of a trace that belongs to the given checks. -/
def read (checks : List Check) (source : TraceSource) : Except EvidenceError (List Record) := do
  let stream ← source
  decodeFrom checks.length stream.fault 0 checks stream.bytes

/-- The records of a trace in memory that belongs to the given checks. -/
def decode (checks : List Check) (bytes : List UInt8) : Except EvidenceError (List Record) :=
  read checks (.memory bytes)

/-- How a trace held in memory is described. -/
def describe (bytes : List UInt8) : String :=
  "<memory: " ++ toString bytes.length ++ " bytes>"

end Trace

end GuardElision
