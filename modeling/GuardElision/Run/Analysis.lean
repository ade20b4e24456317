import GuardElision.Report.Basic
import GuardElision.Run.Inventory

/-!
# Analysing one program

The enabled phases run in order on one ledger. Costs and ranking are taken from the program
as it was; then every eliminated check is folded, by ascending number, and the report is
drawn up.
-/

namespace GuardElision

/-- What a run brings to every program. -/
structure Setup where
  settings : Settings
  classifier : Classifier
  oracle : CostOracle

/-- What is known about one program before it is analysed. -/
structure Findings where
  evidence : Evidence := {}
  /-- The trace that the second phase reads. -/
  trace : Option TraceSource := none
  warnings : List Warning := []

namespace Analysis

/-- How checks are compared under some settings. -/
def strategy (s : Settings) : Strategy :=
  { level := s.level
    inductionStem := s.limits.inductionStem
    maxDepth := s.limits.maxMatchDepth.toNat }

/-- The first phase, if it is enabled and both kinds of checks have coverage. -/
def userPass (s : Settings) (p : Program) (checks : Inventory) (e : Evidence) : Pass :=
  match e.sanitizer, e.user with
  | some sanitizer, some records =>
    if s.phases.user then Phases.user (strategy s) p checks sanitizer.table records else pure
  | _, _ => pure

/-- The second phase, if it is enabled and there is coverage; a trace that does not belong to
the checks is reported and changes nothing. -/
def coveragePass (s : Settings) (p : Program) (checks : Inventory) (f : Findings)
    (ledger : Ledger) : Compare (Ledger × List Warning) :=
  match f.evidence.sanitizer, f.trace with
  | some sanitizer, some trace =>
    if s.phases.coverage then
      match Trace.read checks.sanitizer trace with
      | .ok records => do
        return (← Phases.coverage (strategy s) p checks sanitizer.table records ledger, [])
      | .error cause => return (ledger, [.coverageSkipped cause.message])
    else return (ledger, [])
  | _, _ => return (ledger, [])

/-- The third phase, if it is enabled. -/
def dominancePass (s : Settings) (p : Program) (checks : Inventory) (e : Evidence) : Pass :=
  if s.phases.dominance then Phases.dominance (strategy s) p checks (.ofProgram p) e else pure

/-- All phases, from an empty ledger; also the warnings of the second one. -/
def phases (s : Settings) (p : Program) (checks : Inventory) (f : Findings) :
    Compare (Ledger × List Warning) := do
  let ledger ← userPass s p checks f.evidence .empty
  let (ledger, warnings) ← coveragePass s p checks f ledger
  let ledger ← dominancePass s p checks f.evidence ledger
  return (ledger, warnings)

/-- The ledger at the end of all phases, and the warnings of the second one. -/
def ledger (s : Settings) (p : Program) (checks : Inventory) (f : Findings) :
    Ledger × List Warning :=
  ((phases s p checks f).run {}).1

/-- What each sanitizer check costs. -/
def costs (o : CostOracle) (p : Program) (checks : Inventory) (e : Evidence) : List CheckCost :=
  (checks.sanitizer.zip checks.cones).map fun (c, cone) =>
    .of o p c.id cone (e.totalOf c.id)

/-- What the checks that are not in the ledger cost together. -/
def costAfter (l : Ledger) (costs : List CheckCost) : Count :=
  Count.sum ((costs.filter fun c => !l.contains c.id).map CheckCost.cost)

/-- What became of a check. -/
def verdict (checks : Inventory) (l : Ledger) (id : CheckId) : Verdict :=
  match l.find? id with
  | none => .live
  | some reason =>
    if checks.user.any (·.id == reason.coverer) then .redundantWithUser
    else .redundantWithSanitizer

/-- The place of the check to be inspected, if one is to be inspected in this program. -/
def detail? (s : Settings) (p : Program) (checks : Inventory) (l : Ledger) (r : CostRanking) :
    Option CheckDetail := do
  let target ← s.report.inspect
  if target.appliesTo p.name then r.detail? target.check (verdict checks l target.check)
  else none

/-- The eliminated checks with their reasons, by ascending number. -/
def plan (checks : Inventory) (l : Ledger) : List (Check × Reason) :=
  l.entries.filterMap fun (id, reason) =>
    (checks.sanitizer.reverse.find? (·.id == id)).map fun c => (c, reason)

/-- Fold the planned checks in turn. -/
def foldAll (k : Classifier) : Program → List (Check × Reason) →
    Except RunError (Program × List Elimination)
  | p, [] => .ok (p, [])
  | p, (c, reason) :: rest =>
    match p.eliminate c (k.exitOf c) with
    | .error cause => .error (.ofMismatch c cause)
    | .ok (p, outcome) => do
      let (p, eliminated) ← foldAll k p rest
      return (p, { check := c.id, reason, outcome } :: eliminated)

/-- The warnings about checks that could not be folded. -/
def ambiguities (eliminated : List Elimination) : List Warning :=
  (eliminated.filter (·.outcome == .ambiguous)).map fun e => .ambiguousOutcome e.check

/-- The number of checks left after a phase. -/
def leftAfter (checks : Inventory) (l : Ledger) (phase : Phase) : UInt64 :=
  UInt64.ofNat (checks.sanitizer.length - Ledger.countThrough l phase)

/-- How often the checks left after a phase run. -/
def weightAfter (weight : Count) (l : Ledger) (phase : Phase) : Count :=
  Count.sub weight (Ledger.weightThrough l phase)

/-- The report on a program, given its ledger, the warnings of the second phase and what became of
the eliminated checks. -/
def report (setup : Setup) (p : Program) (checks : Inventory) (f : Findings) (l : Ledger)
    (skipped : List Warning) (eliminated : List Elimination) : Report :=
  let costs := costs setup.oracle p checks f.evidence
  let ranking := CostRanking.ofCosts costs
  let weight := (f.evidence.sanitizer.map (·.weight)).getD 0
  { unit := p.name
    userChecks := UInt64.ofNat checks.user.length
    checks := UInt64.ofNat checks.sanitizer.length
    afterPhase1 := leftAfter checks l .user
    afterPhase2 := leftAfter checks l .coverage
    afterPhase3 := leftAfter checks l .dominance
    weight
    weightAfterPhase1 := weightAfter weight l .user
    weightAfterPhase2 := weightAfter weight l .coverage
    weightAfterPhase3 := weightAfter weight l .dominance
    totalCost := ranking.totalCost
    totalCostAfter := costAfter l costs
    evidence := if f.evidence.isDynamic then .dynamic else .staticOnly
    warnings := f.warnings ++ skipped ++ ambiguities eliminated
    eliminated
    detail := detail? setup.settings p checks l ranking }

/-- Analyse a program whose checks are known: the folded program and the report. -/
def run (setup : Setup) (p : Program) (checks : Inventory) (f : Findings) :
    Except RunError (Program × Report) := do
  let (l, skipped) := ledger setup.settings p checks f
  let (folded, eliminated) ← foldAll setup.classifier p (plan checks l)
  return (folded, report setup p checks f l skipped eliminated)

/-- Analyse a program with given findings. -/
def runWith (setup : Setup) (p : Program) (f : Findings) : Except RunError (Program × Report) := do
  run setup p (← Inventory.take p setup.classifier) f

end Analysis

end GuardElision
