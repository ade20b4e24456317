import GuardElision.Program.Basic
import GuardElision.Reach

/-!
# Dependency cones

The cone of a value holds every operation it is computed from, up to and including the
first control merges on the way. The merges at which it ends form its frontier, which is
looked for on its own, without gathering the cone.
-/

namespace GuardElision.Program

/-- The operations a node depends on directly; a control merge is not looked behind. -/
def coneNext (p : Program) (id : NodeId) : List NodeId :=
  match p.node? id with
  | some n => if n.isMerge then [] else n.nodeOperands
  | none => []

/-- The operations a node is computed from, itself included, by ascending position. -/
def operandCone (p : Program) (root : NodeId) : List NodeId :=
  let reached := Reach.gather p.coneNext p.nodeIds [root]
  p.nodeIds.filter reached.contains

/-- Whether there is a control merge at a position. -/
def isMergeAt (p : Program) (id : NodeId) : Bool :=
  match p.node? id with
  | some n => n.isMerge
  | none => false

/-- Look for control merges from pending operations on, the first one each time. What was visited
before is neither visited again nor made pending again. A merge is kept, and any other operation
makes way for the operations it depends on. -/
def frontierFrom (p : Program) : Nat → (visited pending : List NodeId) → List NodeId
  | 0, _, _ => []
  | _ + 1, _, [] => []
  | rounds + 1, visited, id :: pending =>
    if visited.contains id then p.frontierFrom rounds visited pending
    else
      let visited := id :: visited
      match p.node? id with
      | none => p.frontierFrom rounds visited pending
      | some n =>
        if n.isMerge then id :: p.frontierFrom rounds visited pending
        else p.frontierFrom rounds visited
          (n.nodeOperands.filter (fun operand => !visited.contains operand) ++ pending)

/-- How many operations can become pending: a start, and each operand of each operation. -/
def frontierRounds (p : Program) : Nat := (p.nodeIds.flatMap p.coneNext).length + 1

/-- The control merges at which the cone of an operand ends, by ascending position. -/
def mergeFrontier (p : Program) (start : Operand) : List NodeId :=
  match start with
  | .node root =>
    let met := p.frontierFrom p.frontierRounds [] [root]
    p.nodeIds.filter met.contains
  | _ => []

end GuardElision.Program
