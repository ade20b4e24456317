import GuardElision.Decimal.Binary
import GuardElision.Slice.Backward

/-!
# Remembered slices

Slices of one program are asked for again and again, so a slicer remembers each one by its
root and policy. It also counts how many requests it could answer from memory; the counts
survive when the memory is cleared.
-/

namespace GuardElision

/-- Remembered slices and how often they helped. -/
structure Slicer where
  memory : List ((NodeId × LeafPolicy) × Fingerprint) := []
  hits : Nat := 0
  misses : Nat := 0
  deriving DecidableEq, Inhabited

namespace Slicer

/-- The share of requests that were answered from memory. -/
def hitRate (s : Slicer) : Binary64 :=
  if s.hits + s.misses = 0 then .ofFloat 0.0
  else .ofFloat (s.hits.toFloat / (s.hits + s.misses).toFloat)

/-- The fingerprint of the value at a node. -/
def slice (p : Program) (root : NodeId) (policy : LeafPolicy) (s : Slicer) :
    Fingerprint × Slicer :=
  match s.memory.lookup (root, policy) with
  | some known => (known, { s with hits := s.hits + 1 })
  | none =>
    let found := p.backwardSlice policy root
    (found, { s with misses := s.misses + 1, memory := ((root, policy), found) :: s.memory })

/-- The fingerprint of an operand: an external is its own, a literal has none. -/
def sliceOperand (p : Program) (operand : Operand) (policy : LeafPolicy) (s : Slicer) :
    Fingerprint × Slicer :=
  match operand with
  | .node id => s.slice p id policy
  | .external id => (.singleton (.external id), s)
  | .constant _ => (.empty, s)

/-- The fingerprint of what a branch tests; without a condition there is none. -/
def sliceCheck (p : Program) (branch : NodeId) (policy : LeafPolicy) (s : Slicer) :
    Fingerprint × Slicer :=
  match p.condition? branch with
  | some condition => s.sliceOperand p condition policy
  | none => (.empty, s)

/-- Forget every slice; also how many there were. -/
def clear (s : Slicer) : Nat × Slicer := (s.memory.length, { s with memory := [] })

end Slicer

end GuardElision
