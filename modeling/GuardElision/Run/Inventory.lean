import GuardElision.Fold
import GuardElision.Redundancy.Phases
import GuardElision.Run.Classifier
import GuardElision.Settings.Basic

/-!
# Taking stock

Before anything is analysed, every check that a classifier lists must have a two-way branch
in the program and a number of its own. The first check that has not decides the failure.
-/

namespace GuardElision

/-- Why a run failed. -/
inductive RunError where
  /-- A listed check does not belong to the program. -/
  | structural (check : CheckId) (node : NodeId) (reason : Mismatch)
  /-- The report cannot be written. -/
  | report (cause : FileFailure)
  /-- The settings are at fault. -/
  | settings (cause : SettingsError)
  deriving DecidableEq, Repr

namespace RunError

/-- The report of a failure. -/
def message : RunError → String
  | .structural check node reason =>
    "Structural mismatch for check " ++ check.display ++ " at " ++ node.display ++ ": " ++
      reason.message
  | .report cause => "IO error: " ++ cause.message
  | .settings cause => "Configuration error: " ++ cause.message

/-- Whether the classifier broke its contract with the program. -/
def isContractViolation : RunError → Bool
  | .structural .. => true
  | _ => false

/-- A check that does not belong to the program. -/
def ofMismatch (c : Check) (reason : Mismatch) : RunError := .structural c.id c.branch reason

end RunError

namespace Inventory

/-- The fault of a check, given the numbers in use. -/
def fault? (p : Program) (seen : List CheckId) (c : Check) : Option Mismatch :=
  match p.branchOf c with
  | .error reason => some reason
  | .ok _ => if seen.contains c.id then some .duplicateId else none

/-- The first fault of a list of checks. -/
def firstFault? (p : Program) : (seen : List CheckId) → List Check → Option RunError
  | _, [] => none
  | seen, c :: rest =>
    match fault? p seen c with
    | some reason => some (.ofMismatch c reason)
    | none => firstFault? p (c.id :: seen) rest

/-- The checks of a program, sanitizer checks first, each with what it depends on. -/
def take (p : Program) (k : Classifier) : Except RunError Inventory :=
  match firstFault? p [] (k.sanitizer ++ k.user) with
  | some fault => .error fault
  | none =>
    .ok { sanitizer := k.sanitizer, user := k.user, cones := k.sanitizer.map (k.coneOf p) }

end Inventory

end GuardElision
