import GuardElision.Flow.Dominance
import GuardElision.Redundancy.Ledger
import GuardElision.Redundancy.Subsumption
import GuardElision.Trace.Evidence

/-!
# The three phases of elimination

Each phase looks for sanitizer checks that another check covers and enters them in the
ledger. The first two rely on coverage counts: a user check that ran as often as a
sanitizer check, then an earlier sanitizer check with the same counts as a later one. The
third relies on dominance alone. A check that is in the ledger is never considered again,
and in the third phase it covers no other check.
-/

namespace GuardElision

/-- The checks of a program, each sanitizer check with its dependency cone. -/
structure Inventory where
  sanitizer : List Check
  user : List Check
  cones : List (List NodeId)
  deriving DecidableEq, Repr

/-- A phase turns one ledger into the next; with a tally it also counts what it enters. -/
abbrev Pass (σ : Type := Ledger) := σ → Compare σ

namespace Phases

variable {σ : Type} [Register σ]

/-- Enter a check that is not in the ledger, if it turns out to be covered. -/
def consider (candidate coverer : Check) (phase : Phase) (count : Count)
    (covered : Compare Bool) : Pass σ := fun ledger =>
  if Register.contains ledger candidate.id then pure ledger
  else do
    if ← covered then
      return Register.mark ledger candidate.id { count, phase, coverer := coverer.id }
    else return ledger

/-- Apply a pass for each element of a list in turn. -/
def each {α : Type} (items : List α) (pass : α → Pass σ) : Pass σ := fun ledger =>
  items.foldlM (fun ledger item => pass item ledger) ledger

/-- Whether sanitizer checks ran exactly so often. -/
def usable (table : PatternTable) (count : Count) : Bool := count != 0 && table.contains count

/-- Consider the check of a table entry. -/
def considerEntry (checks : Inventory) (coverer : Check) (count : Count) (entry : PatternEntry)
    (covered : Check → Compare Bool) : Pass σ :=
  match checks.sanitizer[entry.ordinal]? with
  | some candidate => consider candidate coverer .user count (covered candidate)
  | none => pure

/-- Consider the checks that ran as often as a user check. -/
def sameTotal (s : Strategy) (p : Program) (checks : Inventory) (table : PatternTable)
    (coverer : Check) (r : Record) : Pass σ :=
  each (PatternTable.bucket table r.total) fun entry =>
    considerEntry checks coverer r.total entry fun candidate =>
      if s.isInductionGuard p candidate then pure true
      else if r.sameSplit entry.left entry.right then
        s.subsumed p candidate coverer .coverage
      else pure false

/-- Consider the one-sided checks that ran as often as one side of a user check. -/
def oneSided (s : Strategy) (p : Program) (checks : Inventory) (table : PatternTable)
    (coverer : Check) (count : Count) : Pass σ :=
  each ((PatternTable.bucket table count).filter (·.isOneSided)) fun entry =>
    considerEntry checks coverer count entry fun candidate =>
      s.subsumed p candidate coverer .coverage

/-- Consider what one user check can cover: by its total, else by its left count, else by its
right count. -/
def userStep (s : Strategy) (p : Program) (checks : Inventory) (table : PatternTable)
    (coverer : Check) (r : Record) : Pass σ :=
  if usable table r.total then sameTotal s p checks table coverer r
  else if usable table r.left then oneSided s p checks table coverer r.left
  else if usable table r.right then oneSided s p checks table coverer r.right
  else pure

/-- First phase: user checks cover sanitizer checks. -/
def user (s : Strategy) (p : Program) (checks : Inventory) (table : PatternTable)
    (records : List Record) : Pass σ :=
  each (checks.user.zip records) fun (coverer, r) => userStep s p checks table coverer r

/-- Whether a table entry belongs to an earlier check with matching counts. -/
def earlierMatch (ordinal : Nat) (c : Check) (r : Record) (entry : PatternEntry) : Bool :=
  entry.ordinal < ordinal && entry.id != c.id && (r.left == entry.left || r.right == entry.left)

/-- The first of some checks that covers a candidate. -/
def firstCoverer (s : Strategy) (p : Program) (candidate : Check) (source : Source) :
    List Check → Compare (Option Check)
  | [] => pure none
  | c :: rest => do
    if ← s.subsumed p candidate c source then return some c
    else firstCoverer s p candidate source rest

/-- Enter a check with the first of some checks that covers it. -/
def coverByFirst (s : Strategy) (p : Program) (candidate : Check) (source : Source)
    (phase : Phase) (count : Count) (coverers : List Check) : Pass σ := fun ledger => do
  match ← firstCoverer s p candidate source coverers with
  | some c => return Register.mark ledger candidate.id { count, phase, coverer := c.id }
  | none => return ledger

/-- Look for an earlier sanitizer check that covers the one at a position. -/
def coverageStep (s : Strategy) (p : Program) (checks : Inventory) (table : PatternTable)
    (ordinal : Nat) (candidate : Check) (r : Record) : Pass σ := fun ledger =>
  if r.total = 0 ∨ Register.contains ledger candidate.id then return ledger
  else
    let entries := (PatternTable.bucket table r.total).filter (earlierMatch ordinal candidate r)
    let earlier := entries.filterMap fun entry => checks.sanitizer[entry.ordinal]?
    coverByFirst s p candidate .coverage .coverage r.total earlier ledger

/-- Second phase: earlier sanitizer checks cover later ones. -/
def coverage (s : Strategy) (p : Program) (checks : Inventory) (table : PatternTable)
    (records : List Record) : Pass σ :=
  each (checks.sanitizer.zip records).zipIdx fun ((candidate, r), ordinal) =>
    coverageStep s p checks table ordinal candidate r

/-- Whether one block comes before or after the other on every run. -/
def onEveryRun (d : Dominance) (coverer candidate : BlockId) : Bool :=
  d.dominates coverer candidate || d.postDominates coverer candidate

/-- Consider a sanitizer check that a user check may dominate or post-dominate. -/
def dominatedByUser (s : Strategy) (p : Program) (d : Dominance) (e : Evidence)
    (coverer candidate : Check) : Pass σ := fun ledger =>
  match p.ownBlock? coverer, p.ownBlock? candidate with
  | some a, some b =>
    if onEveryRun d a b then
      consider candidate coverer .dominance (e.totalOf candidate.id)
        (s.subsumed p candidate coverer .dominance) ledger
    else return ledger
  | _, _ => return ledger

/-- Whether a sanitizer check in block `coverer` may stand for one in block `candidate`: it
dominates it, or post-dominates it without being dominated itself. -/
def precedes (d : Dominance) (coverer candidate : BlockId) : Bool :=
  d.dominates coverer candidate ||
    (!d.dominates candidate coverer && d.postDominates coverer candidate)

/-- The sanitizer checks with their positions and effective blocks. -/
def placed (p : Program) (checks : Inventory) : List (Check × Nat × Option BlockId) :=
  checks.sanitizer.zipIdx.map fun (c, i) =>
    (c, i, p.effectiveBlock? c ((checks.cones[i]?).getD []))

/-- The other live sanitizer checks whose place lets them cover the one in a block. -/
def coverersAt (d : Dominance) (ledger : σ) (candidate : Check) (position : Nat)
    (block : BlockId) (all : List (Check × Nat × Option BlockId)) : List Check :=
  all.filterMap fun (c, i, other) =>
    match other with
    | some b =>
      if i != position && c.id != candidate.id && !Register.contains ledger c.id &&
        precedes d b block then some c else none
    | none => none

/-- Look for a live sanitizer check that covers another one. -/
def dominatedBySanitizer (s : Strategy) (p : Program) (d : Dominance) (e : Evidence)
    (all : List (Check × Nat × Option BlockId)) (candidate : Check × Nat × Option BlockId) :
    Pass σ := fun ledger =>
  let (check, position, block) := candidate
  match block with
  | some b =>
    if Register.contains ledger check.id then return ledger
    else
      coverByFirst s p check .dominance .dominance (e.totalOf check.id)
        (coverersAt d ledger check position b all) ledger
  | none => return ledger

/-- Third phase: checks cover what they dominate or post-dominate, user checks first. -/
def dominance (s : Strategy) (p : Program) (checks : Inventory) (d : Dominance) (e : Evidence) :
    Pass σ := fun ledger => do
  let ledger ← each checks.user
    (fun coverer => each checks.sanitizer (dominatedByUser s p d e coverer)) ledger
  let all := placed p checks
  each all (dominatedBySanitizer s p d e all) ledger

/-- The outcome of a pass, with the number of checks that it enters. -/
def counted (pass : Pass Tally) (ledger : Ledger) : Compare (Nat × Ledger) := do
  let t ← pass { ledger }
  return (t.entered, t.ledger)

/-- The second phase on a trace, which is read again: the number of checks that it enters, or why
the trace does not belong to the sanitizer checks. Then nothing is entered. -/
def coverageFrom (s : Strategy) (p : Program) (checks : Inventory) (table : PatternTable)
    (source : TraceSource) (ledger : Ledger) : Compare (Except EvidenceError Nat × Ledger) :=
  match Trace.read checks.sanitizer source with
  | .error cause => return (.error cause, ledger)
  | .ok records => do
    let (entered, after) ← counted (coverage s p checks table records) ledger
    return (.ok entered, after)

end Phases

end GuardElision
