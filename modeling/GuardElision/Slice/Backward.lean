import GuardElision.Check
import GuardElision.Program.Basic
import GuardElision.Reach
import GuardElision.Slice.Fingerprint

/-!
# Backward slices

From a value, slicing follows operands backwards until it meets leaves: memory reads,
control merges, operations that depend on no other operation and, when locations are
compared, address computations. Literals contribute nothing, and a reference to a node
that does not exist is ignored. The slice is the set of leaves and externals met.
-/

namespace GuardElision

/-- What counts as a leaf of a slice. -/
inductive LeafPolicy where
  /-- Compare locations: address computations are leaves. -/
  | address
  /-- Compare where values come from: address computations are expanded. -/
  | value
  deriving DecidableEq, Repr, Inhabited

/-- The policy under which checks of a kind are sliced. -/
def LeafPolicy.ofKind : GuardKind → LeafPolicy
  | .address => .address
  | .generic => .value

/-- Whether slicing stops at a node. -/
def LeafPolicy.isLeaf (policy : LeafPolicy) (n : Node) : Bool :=
  match n.opcode, policy with
  | .memoryRead, _ | .controlMerge, _ | .addressComputation, .address => true
  | _, _ => n.nodeOperands.isEmpty

/-- Whether slicing goes on to the operands of a node: not at a literal, not at a leaf. -/
def LeafPolicy.expands (policy : LeafPolicy) (n : Node) : Bool :=
  n.opcode != .constant && !policy.isLeaf n

namespace Program

/-- Where slicing goes on from a position. -/
def sliceNext (p : Program) (policy : LeafPolicy) (id : NodeId) : List NodeId :=
  match p.node? id with
  | some n => if policy.expands n then n.nodeOperands else []
  | none => []

/-- What a visited position adds to a slice: itself if it is a leaf, its externals if it is
expanded. -/
def sliceYield (p : Program) (policy : LeafPolicy) (id : NodeId) : List Leaf :=
  match p.node? id with
  | none => []
  | some n =>
    if n.opcode == .constant then []
    else if policy.isLeaf n then [.node id]
    else n.externalOperands.map .external

/-- The fingerprint of the value at a node. -/
def backwardSlice (p : Program) (policy : LeafPolicy) (root : NodeId) : Fingerprint :=
  let visited := Reach.gather (p.sliceNext policy) p.nodeIds [root]
  .ofList (visited.flatMap (p.sliceYield policy))

end Program

end GuardElision
