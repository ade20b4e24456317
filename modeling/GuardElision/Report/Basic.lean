import GuardElision.Cost.Ranking
import GuardElision.Fold
import GuardElision.Redundancy.Ledger

/-!
# Reports

What a run says about one program: how many checks were left after each phase, how often
the remaining ones run and what they cost, which checks were eliminated and why, and what
went wrong on the way.
-/

namespace GuardElision

/-- What a run relied on. -/
inductive EvidenceMode where
  /-- Coverage traces were available. -/
  | dynamic
  | staticOnly
  deriving DecidableEq, Repr, Inhabited

/-- Something that did not stop a run but should be known. -/
inductive Warning where
  /-- A trace was not used. -/
  | mismatchedEvidence (trace reason : String)
  /-- The second phase did not run. -/
  | coverageSkipped (reason : String)
  /-- A check was eliminated but could not be folded. -/
  | ambiguousOutcome (check : CheckId)
  deriving DecidableEq, Repr

/-- The text of a warning. -/
def Warning.message : Warning → String
  | .mismatchedEvidence trace reason => "coverage trace " ++ trace ++ " ignored: " ++ reason
  | .coverageSkipped reason => "coverage subsumption skipped: " ++ reason
  | .ambiguousOutcome check =>
    "check " ++ check.display ++ " is redundant but its regular successor is unknown"

/-- An eliminated check. -/
structure Elimination where
  check : CheckId
  reason : Reason
  outcome : FoldOutcome
  deriving DecidableEq, Repr, Inhabited

/-- The report on one program. -/
structure Report where
  unit : String
  userChecks : UInt64
  checks : UInt64
  afterPhase1 : UInt64
  afterPhase2 : UInt64
  afterPhase3 : UInt64
  weight : Count
  weightAfterPhase1 : Count
  weightAfterPhase2 : Count
  weightAfterPhase3 : Count
  totalCost : Count
  totalCostAfter : Count
  evidence : EvidenceMode
  warnings : List Warning
  eliminated : List Elimination
  detail : Option CheckDetail := none
  deriving DecidableEq, Repr

/-- A part of a whole in percent; of nothing, zero percent. -/
def percent (part whole : Count) : Binary64 :=
  if whole = 0 then .ofFloat 0.0 else .ofFloat (part.toFloat * 100.0 / whole.toFloat)

namespace Report

/-- How many checks were eliminated. -/
def eliminatedCount (r : Report) : UInt64 := Count.sub r.checks r.afterPhase3

/-- The share of checks left after the first phase. -/
def percentAfterPhase1 (r : Report) : Binary64 := percent r.afterPhase1 r.checks

/-- The share of checks left at the end. -/
def percentAfterPhase3 (r : Report) : Binary64 := percent r.afterPhase3 r.checks

/-- The share of executions left after the first phase. -/
def percentWeightAfterPhase1 (r : Report) : Binary64 := percent r.weightAfterPhase1 r.weight

/-- The share of executions left at the end. -/
def percentWeightAfterPhase3 (r : Report) : Binary64 := percent r.weightAfterPhase3 r.weight

/-- The share of the cost left at the end. -/
def percentCostAfter (r : Report) : Binary64 := percent r.totalCostAfter r.totalCost

end Report

end GuardElision
