import GuardElision.Match.Session

/-!
# Same location

One fingerprint covers another when every leaf of the covered one is matched by some leaf
of the covering one. Two leaves match when they are the same, when they perform the same
operation on operands that match in turn, or when the covered leaf is matched inside what
the covering leaf is computed from. Offsets of an address may only grow towards the
covering side.

Every step into operands uses up one level. The rules for single leaves take the
comparison one level down as a parameter, so that `sameLocation` is one recursion on the
number of levels left.
-/

namespace GuardElision.Match

/-- The comparison of two fingerprints one level further down. -/
abbrev Deeper := Fingerprint → Fingerprint → Compare Bool

/-- Slice two nodes, the covered one first, and compare what was found. -/
def sameSlices (p : Program) (policy : MatchPolicy) (deeper : Deeper) (a b : NodeId) :
    Compare Bool := do
  let fa ← Compare.slice p policy.leaves a
  let fb ← Compare.slice p policy.leaves b
  deeper fa fb

/-- Two memory reads match when what they read from matches. -/
def sameRead (p : Program) (policy : MatchPolicy) (deeper : Deeper) (a b : Node) :
    Compare Bool :=
  match a.operands, b.operands with
  | [.node x], [.node y] => if x = y then pure true else sameSlices p policy deeper x y
  | [.node _], [_] => pure false
  | [x], [.node y] => do
    let fa ← Compare.sliceOperand p policy.leaves x
    let fb ← Compare.slice p policy.leaves y
    deeper fa fb
  | [x], [y] => pure (x == y)
  | _, _ => pure false

/-- One place of two address computations: an offset must not exceed the covering one. -/
def sameAddressPart (p : Program) (policy : MatchPolicy) (deeper : Deeper) :
    Operand → Operand → Compare Bool
  | .node x, .node y => if x = y then pure true else sameSlices p policy deeper x y
  | .constant (.int x), .constant (.int y) => pure (decide (x ≤ y))
  | .external e, .node y => do
    let fb ← Compare.slice p policy.leaves y
    pure (fb.contains (.external e))
  | x, y => pure (x == y)

/-- One place of two generic operations. -/
def sameGenericPart (p : Program) (policy : MatchPolicy) (deeper : Deeper) :
    Operand → Operand → Compare Bool
  | .node x, .node y => if x = y then pure true else sameSlices p policy deeper x y
  | x, y => pure (x == y)

/-- Whether all places match; the first that does not ends the comparison. -/
def samePlaces (part : Operand → Operand → Compare Bool) (a b : List Operand) : Compare Bool :=
  (a.zip b).allM fun (x, y) => part x y

/-- Two generic operations of one name and arity. -/
def sameGeneric (p : Program) (policy : MatchPolicy) (deeper : Deeper) (a b : Node) :
    Compare Bool :=
  match policy.operands with
  | .exact => pure (a.operands == b.operands)
  | .structural => samePlaces (sameGenericPart p policy deeper) a.operands b.operands

/-- Look for a leaf inside what a node is computed from. -/
def matchInside (p : Program) (policy : MatchPolicy) (deeper : Deeper) (leaf : Leaf) (b : Node) :
    Compare Bool :=
  if b.isMerge then pure false
  else
    (b.operands.filter fun operand => !operand.isConstant).anyM fun operand => do
      let fb ← Compare.sliceOperand p policy.leaves operand
      deeper (.singleton leaf) fb

/-- Whether two nodes that are leaves match. -/
def sameNode (p : Program) (policy : MatchPolicy) (deeper : Deeper) (idA : NodeId)
    (a b : Node) : Compare Bool :=
  match a.opcode, b.opcode with
  | .controlMerge, .controlMerge => pure false
  | .memoryRead, .memoryRead => sameRead p policy deeper a b
  | .addressComputation, .addressComputation =>
    if a.operands.length = b.operands.length then
      samePlaces (sameAddressPart p policy deeper) a.operands b.operands
    else matchInside p policy deeper (.node idA) b
  | .generic x, .generic y =>
    if x = y ∧ a.operands.length = b.operands.length then sameGeneric p policy deeper a b
    else matchInside p policy deeper (.node idA) b
  | _, _ => matchInside p policy deeper (.node idA) b

/-- Whether a leaf is matched by a leaf of the covering side. -/
def sameLeaf (p : Program) (policy : MatchPolicy) (deeper : Deeper) (a b : Leaf) :
    Compare Bool :=
  if a = b then pure true
  else
    match b with
    | .external _ => pure false
    | .node idB =>
      match p.node? idB with
      | none => pure false
      | some nodeB =>
        match a with
        | .external _ => matchInside p policy deeper a nodeB
        | .node idA =>
          match p.node? idA with
          | none => pure false
          | some nodeA => sameNode p policy deeper idA nodeA nodeB

/-- Whether every leaf of `a` is matched by some leaf of `b`. -/
def coverLeaves (p : Program) (policy : MatchPolicy) (deeper : Deeper) (a b : Fingerprint) :
    Compare Bool :=
  a.leaves.allM fun x => b.leaves.anyM fun y => sameLeaf p policy deeper x y

/-- Whether `b` cannot cover `a` for want of leaves. -/
def tooFew (a b : Fingerprint) : Bool := a.isEmpty || b.size < a.size

/-- Whether the values fingerprinted by `a` are covered by those fingerprinted by `b`, within
the given number of levels. -/
def sameLocation (p : Program) (policy : MatchPolicy) : Nat → Fingerprint → Fingerprint →
    Compare Bool
  | 0, a, b => if tooFew a b then pure false else Compare.cutOff
  | levels + 1, a, b =>
    if tooFew a b then pure false
    else coverLeaves p policy (sameLocation p policy levels) a b

end GuardElision.Match
