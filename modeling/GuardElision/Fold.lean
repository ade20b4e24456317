import GuardElision.Check
import GuardElision.Program.Basic

/-!
# Folding eliminated checks

An eliminated check is folded: its condition becomes the constant that sends the branch to
its regular exit, `true` for the left target and `false` for the right one. Nothing else in
the program changes. A check whose regular exit is unknown stays as it is.
-/

namespace GuardElision

/-- What became of the branch of an eliminated check. -/
inductive FoldOutcome where
  /-- The condition was replaced. -/
  | folded (value : Bool)
  /-- The condition was that constant already. -/
  | alreadyConstant
  /-- The regular exit is unknown. -/
  | ambiguous
  deriving DecidableEq, Repr, Inhabited

/-- Why a check does not belong to a program. -/
inductive Mismatch where
  /-- There is no node where the branch should be. -/
  | missingBranch
  /-- The node is not a two-way branch. -/
  | notCondBranch
  /-- Another check has the same number. -/
  | duplicateId
  deriving DecidableEq, Repr

/-- The report of a mismatch. -/
def Mismatch.message : Mismatch → String
  | .missingBranch => "branch node not in unit"
  | .notCondBranch => "not a conditional branch"
  | .duplicateId => "duplicate check id"

/-- The constant that leads to an exit. -/
def RegularExit.constant? : RegularExit → Option Bool
  | .left => some true
  | .right => some false
  | .unknown => none

/-- The branch with a constant for its condition. -/
def Node.withCondition (n : Node) (value : Bool) : Node :=
  { n with operands := .constant (.bool value) :: n.operands.drop 1 }

/-- Whether there is a two-way branch where a check has its own. -/
def Program.branchOf (p : Program) (c : Check) : Except Mismatch Node :=
  match p.node? c.branch with
  | none => .error .missingBranch
  | some n => if n.isCondBranch then .ok n else .error .notCondBranch

/-- Fold a check towards its regular exit. -/
def Program.eliminate (p : Program) (c : Check) (exit : RegularExit) :
    Except Mismatch (Program × FoldOutcome) := do
  let n ← p.branchOf c
  match exit.constant? with
  | none => return (p, .ambiguous)
  | some value =>
    if n.operands.head? = some (.constant (.bool value)) then return (p, .alreadyConstant)
    else
      let nodes := p.nodes.setIfInBounds c.branch.index.toNat (n.withCondition value)
      return ({ p with nodes }, .folded value)

end GuardElision
