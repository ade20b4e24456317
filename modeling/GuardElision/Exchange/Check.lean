import GuardElision.Check
import GuardElision.Cost.Oracle
import GuardElision.Exchange.Program
import GuardElision.Redundancy.Ledger
import GuardElision.Settings.Level
import GuardElision.Trace.Record

/-!
# Checks, records and reasons as JSON

The exchange forms of checks and of what runs record about them.
-/

namespace GuardElision

/-- How a check's number is written as JSON. -/
def CheckId.toJson (id : CheckId) : Json := .word id.number

/-- Read a check's number from JSON. -/
def CheckId.ofJson? (j : Json) : Option CheckId := j.word?.map CheckId.mk

/-- The names of origins. -/
def Origin.names : List (String × Origin) := [("sanitizer", .sanitizer), ("user", .user)]

/-- How an origin is written as JSON. -/
def Origin.toJson : Origin → Json
  | .sanitizer => .string "sanitizer"
  | .user => .string "user"

/-- Read an origin from JSON. -/
def Origin.ofJson? : Json → Option Origin := Json.choice? names

/-- The names of guard kinds. -/
def GuardKind.names : List (String × GuardKind) := [("address", .address), ("generic", .generic)]

/-- How a guard kind is written as JSON. -/
def GuardKind.toJson : GuardKind → Json
  | .address => .string "address"
  | .generic => .string "generic"

/-- Read a guard kind from JSON. -/
def GuardKind.ofJson? : Json → Option GuardKind := Json.choice? names

/-- The names of exits. -/
def RegularExit.names : List (String × RegularExit) :=
  [("left", .left), ("right", .right), ("unknown", .unknown)]

/-- How a regular exit is written as JSON. -/
def RegularExit.toJson : RegularExit → Json
  | .left => .string "left"
  | .right => .string "right"
  | .unknown => .string "unknown"

/-- Read a regular exit from JSON. -/
def RegularExit.ofJson? : Json → Option RegularExit := Json.choice? names

/-- How a check is written as JSON. -/
def Check.toJson (c : Check) : Json :=
  .object [("id", c.id.toJson), ("branch", c.branch.toJson), ("origin", c.origin.toJson),
    ("kind", c.kind.toJson)]

/-- Read a check from JSON. -/
def Check.ofJson? (j : Json) : Option Check := do
  let f ← j.fields? ["id", "branch", "origin", "kind"]
  return {
    id := ← f.required "id" CheckId.ofJson?
    branch := ← f.required "branch" NodeId.ofJson?
    origin := ← f.required "origin" Origin.ofJson?
    kind := ← f.defaulted "kind" .generic GuardKind.ofJson? }

/-- How a coverage record is written as JSON. -/
def Record.toJson (r : Record) : Json :=
  .object [("id", r.id.toJson), ("left", .word r.left), ("right", .word r.right)]

/-- Read a coverage record from JSON. -/
def Record.ofJson? (j : Json) : Option Record := do
  let f ← j.fields? ["id", "left", "right"]
  return {
    id := ← f.required "id" CheckId.ofJson?
    left := ← f.required "left" Json.word?
    right := ← f.required "right" Json.word? }

/-- The names of phases. -/
def Phase.names : List (String × Phase) :=
  [("user_subsumption", .user), ("coverage_subsumption", .coverage),
    ("dominance_subsumption", .dominance)]

/-- How a phase is written as JSON. -/
def Phase.toJson : Phase → Json
  | .user => .string "user_subsumption"
  | .coverage => .string "coverage_subsumption"
  | .dominance => .string "dominance_subsumption"

/-- Read a phase from JSON. -/
def Phase.ofJson? : Json → Option Phase := Json.choice? names

/-- The fields of a reason. -/
def Reason.fields (r : Reason) : Json.Fields :=
  [("count", .word r.count), ("phase", r.phase.toJson), ("by", r.coverer.toJson)]

/-- How a reason is written as JSON. -/
def Reason.toJson (r : Reason) : Json := .object r.fields

/-- Read a reason from JSON. -/
def Reason.ofJson? (j : Json) : Option Reason := do
  let f ← j.fields? ["count", "phase", "by"]
  return {
    count := ← f.required "count" Json.word?
    phase := ← f.required "phase" Phase.ofJson?
    coverer := ← f.required "by" CheckId.ofJson? }

/-- How the cost of a check is written as JSON. -/
def CheckCost.toJson (c : CheckCost) : Json :=
  .object [("id", c.id.toJson), ("cost", .word c.cost),
    ("free_operations", .word c.freeOperations)]

/-- Read the cost of a check from JSON. -/
def CheckCost.ofJson? (j : Json) : Option CheckCost := do
  let f ← j.fields? ["id", "cost", "free_operations"]
  return {
    id := ← f.required "id" CheckId.ofJson?
    cost := ← f.required "cost" Json.word?
    freeOperations := ← f.required "free_operations" Json.word? }

/-- The names of levels. -/
def Level.names : List (String × Level) := [("L0", .l0), ("L1", .l1), ("L2", .l2), ("L3", .l3)]

/-- How a level is written as JSON. -/
def Level.toJson (l : Level) : Json := .string l.name

/-- Read a level from JSON. -/
def Level.ofJson? : Json → Option Level := Json.choice? names

end GuardElision
