import GuardElision.Slice.Memo

/-!
# Comparison sessions

Comparisons of values share one slicer and count how often they were cut off because they
went too deep. Both are visible to whoever runs the comparisons, so a comparison is a step
on a session; whether two values match depends on neither.
-/

namespace GuardElision

/-- How the operands of two generic operations are compared. -/
inductive OperandMatch where
  /-- The operand lists are the same. -/
  | exact
  /-- The operands match one by one, looking into operations. -/
  | structural
  deriving DecidableEq, Repr, Inhabited

/-- How two values are compared. -/
structure MatchPolicy where
  leaves : LeafPolicy
  operands : OperandMatch
  deriving DecidableEq, Repr, Inhabited

/-- Guards of memory accesses compare locations and look into operations; all others
compare where values come from, with the same operands. -/
def MatchPolicy.ofKind : GuardKind → MatchPolicy
  | .address => ⟨.address, .structural⟩
  | .generic => ⟨.value, .exact⟩

/-- What comparisons share. -/
structure Session where
  slicer : Slicer := {}
  /-- How many comparisons were cut off at the depth limit. -/
  cutOffs : Nat := 0
  deriving DecidableEq, Inhabited

/-- A step on a session. -/
abbrev Compare := StateM Session

namespace Compare

/-- Slice the value at a node. -/
def slice (p : Program) (policy : LeafPolicy) (id : NodeId) : Compare Fingerprint := fun s =>
  let (found, slicer) := s.slicer.slice p id policy
  (found, { s with slicer })

/-- Slice an operand. -/
def sliceOperand (p : Program) (policy : LeafPolicy) (operand : Operand) :
    Compare Fingerprint := fun s =>
  let (found, slicer) := s.slicer.sliceOperand p operand policy
  (found, { s with slicer })

/-- Slice what a branch tests. -/
def sliceCheck (p : Program) (policy : LeafPolicy) (branch : NodeId) :
    Compare Fingerprint := fun s =>
  let (found, slicer) := s.slicer.sliceCheck p branch policy
  (found, { s with slicer })

/-- Give up at the depth limit: no match, and the cut is counted. -/
def cutOff : Compare Bool := fun s => (false, { s with cutOffs := s.cutOffs + 1 })

end Compare

end GuardElision
