import GuardElision.Match.Location
import GuardElision.Match.Shape
import GuardElision.Settings.Level

/-!
# Subsumption

Whether one check makes another superfluous, as far as the chosen precision level can
tell. Matching a sanitizer's address guard against a user check through coverage counts
looks at the index alone: a user's bounds test mentions the index but not the base.
-/

namespace GuardElision

/-- What speaks for comparing two checks at all. -/
inductive Source where
  /-- They ran equally often. -/
  | coverage
  /-- One dominates or post-dominates the other. -/
  | dominance
  deriving DecidableEq, Repr, Inhabited

/-- How checks are compared in one run. -/
structure Strategy where
  level : Level
  /-- How the names of induction variables start. -/
  inductionStem : String
  /-- How many levels of operands a comparison may go down. -/
  maxDepth : Nat
  deriving DecidableEq, Repr

namespace Strategy

/-- The operands behind the base of an address computation, if a fingerprint is one such
computation. -/
def indexOperands? (p : Program) (f : Fingerprint) : Option (List Operand) := do
  let id ← f.singleNode?
  let n ← p.node? id
  if n.opcode = .addressComputation then some (n.operands.drop 1) else none

/-- The fingerprint of several operands together, by where their values come from. -/
def sliceAll (p : Program) (operands : List Operand) : Compare Fingerprint :=
  operands.foldlM
    (fun found operand => return found.union (← Compare.sliceOperand p .value operand)) .empty

/-- What of the candidate has to be covered, and how: all of it, or for an address guard
that a user check ran as often as, the index by value. -/
def refine (p : Program) (candidate coverer : Check) (source : Source) (f : Fingerprint) :
    Compare (Fingerprint × MatchPolicy) := do
  let policy := MatchPolicy.ofKind candidate.kind
  if source = .coverage ∧ coverer.origin = .user ∧ candidate.kind = .address then
    match indexOperands? p f with
    | some operands => return (← sliceAll p operands, { policy with leaves := .value })
    | none => return (f, policy)
  else
    return (f, policy)

/-- Whether `coverer` makes `candidate` superfluous. -/
def subsumed (s : Strategy) (p : Program) (candidate coverer : Check) (source : Source) :
    Compare Bool :=
  if source = .coverage ∧ s.level.trustsCounts then pure true
  else if s.level.isShallow then
    match p.condition? candidate.branch, p.condition? coverer.branch with
    | some a, some b => Match.sameShape p s.maxDepth a b
    | _, _ => pure false
  else do
    let own ← Compare.sliceCheck p (MatchPolicy.ofKind candidate.kind).leaves candidate.branch
    let (wanted, policy) ← refine p candidate coverer source own
    let covering ← Compare.sliceCheck p policy.leaves coverer.branch
    Match.sameLocation p policy s.maxDepth wanted covering

/-- Whether a check is recognised as the guard of an induction variable. -/
def isInductionGuard (s : Strategy) (p : Program) (c : Check) : Bool :=
  s.level.usesInduction && Match.isInductionGuard p c.branch s.inductionStem

end Strategy

/-- The block of the branch that performs a check. -/
def Program.ownBlock? (p : Program) (c : Check) : Option BlockId :=
  (p.node? c.branch).map (·.block)

/-- The block from which a check takes effect: that of the last other two-way branch in its
cone, or else its own. -/
def Program.effectiveBlock? (p : Program) (c : Check) (cone : List NodeId) : Option BlockId :=
  let others := (cone.filter (· != c.branch)).filterMap p.node?
  match others.reverse.find? (·.isCondBranch) with
  | some n => some n.block
  | none => p.ownBlock? c

end GuardElision
