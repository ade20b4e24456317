import GuardElision.Ordered.Map
import GuardElision.Trace.Bytes

/-!
# Coverage evidence

The records of the sanitizer checks are arranged by their totals, because two checks can
only stand for each other if they ran equally often. Each entry remembers the position of
its check in the enumeration.
-/

namespace GuardElision

/-- A sanitizer check's record in the pattern table. -/
structure PatternEntry where
  id : CheckId
  left : Count
  right : Count
  branch : NodeId
  /-- The position of the check among the sanitizer checks. -/
  ordinal : Nat
  deriving DecidableEq, Repr, Inhabited

/-- Whether the check always went the same way. -/
def PatternEntry.isOneSided (e : PatternEntry) : Bool := e.left == 0 || e.right == 0

/-- Records arranged by their totals, each bucket in order of arrival. -/
abbrev PatternTable := SortedMap Count (List PatternEntry)

namespace PatternTable

/-- The entries with a total. -/
def bucket (t : PatternTable) (total : Count) : List PatternEntry := (t.find? total).getD []

/-- The table with an entry at the end of its bucket. -/
def push (t : PatternTable) (total : Count) (entry : PatternEntry) : PatternTable :=
  t.insert total (PatternTable.bucket t total ++ [entry])

/-- The number of entries in all buckets. -/
def entryCount (t : PatternTable) : Nat := t.values.foldl (fun n entries => n + entries.length) 0

end PatternTable

/-- What the coverage run says about the sanitizer checks. -/
structure SanitizerEvidence where
  records : List Record
  table : PatternTable
  checkCount : Nat
  /-- How often sanitizer checks ran, all together. -/
  weight : Count

namespace SanitizerEvidence

/-- The entry of a check at a position. -/
def entryOf (ordinal : Nat) (c : Check) (r : Record) : PatternEntry :=
  { id := r.id, left := r.left, right := r.right, branch := c.branch, ordinal }

/-- The table of the records of checks from position `ordinal` on, added to a table. -/
def arrange : (ordinal : Nat) → List Check → List Record → PatternTable → PatternTable
  | ordinal, c :: checks, r :: records, table =>
    arrange (ordinal + 1) checks records
      (PatternTable.push table r.total (entryOf ordinal c r))
  | _, _, _, table => table

/-- The evidence of records that belong to the given checks. -/
def ofRecords (checks : List Check) (records : List Record) : SanitizerEvidence :=
  { records
    table := arrange 0 checks records .empty
    checkCount := checks.length
    weight := Count.sum (records.map Record.total) }

/-- The evidence of a trace. -/
def ofSource (checks : List Check) (source : TraceSource) :
    Except EvidenceError SanitizerEvidence := do
  return ofRecords checks (← Trace.read checks source)

/-- The evidence of a trace in memory. -/
def ofTrace (checks : List Check) (bytes : List UInt8) : Except EvidenceError SanitizerEvidence :=
  ofSource checks (.memory bytes)

/-- How often a check ran, by its first record. -/
def totalOf? (e : SanitizerEvidence) (id : CheckId) : Option Count :=
  (e.records.find? fun r => r.id == id).map Record.total

end SanitizerEvidence

/-- All that is known from coverage runs. -/
structure Evidence where
  sanitizer : Option SanitizerEvidence := none
  /-- One record for each user check. -/
  user : Option (List Record) := none

namespace Evidence

/-- Whether a coverage run is known. -/
def isDynamic (e : Evidence) : Bool := e.sanitizer.isSome

/-- How often a sanitizer check ran; zero if nothing is known. -/
def totalOf (e : Evidence) (id : CheckId) : Count :=
  (e.sanitizer.bind (·.totalOf? id)).getD 0

end Evidence

end GuardElision
