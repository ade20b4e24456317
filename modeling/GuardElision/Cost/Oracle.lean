import GuardElision.Count
import GuardElision.Program.Basic

/-!
# What operations cost

An oracle knows what one execution of an operation costs; an operation it does not know
costs one. A check costs what all operations of its cone cost, once for every execution.
-/

namespace GuardElision

/-- Costs by the mnemonic of the opcode. -/
structure CostTable where
  costs : List (String × Count) := []
  deriving DecidableEq, Repr, Inhabited

/-- The table with one cost set. -/
def CostTable.set (t : CostTable) (name : String) (cost : Count) : CostTable :=
  ⟨t.costs.filter (fun entry => entry.1 != name) ++ [(name, cost)]⟩

/-- Where costs come from: what one execution of an operation costs, if that is known. -/
structure CostOracle where
  cost? : Program → NodeId → Option Count

namespace CostOracle

/-- Every operation costs one. -/
def uniform : CostOracle := ⟨fun p id => (p.node? id).map fun _ => 1⟩

/-- Operations cost what a table says. -/
def table (t : CostTable) : CostOracle :=
  ⟨fun p id => do t.costs.lookup (← p.node? id).opcode.mnemonic⟩

/-- What an operation costs; one if that is unknown. -/
def cost (o : CostOracle) (p : Program) (id : NodeId) : Count := (o.cost? p id).getD 1

end CostOracle

/-- What a check costs. -/
structure CheckCost where
  id : CheckId
  cost : Count
  /-- How many operations of the cone cost nothing. -/
  freeOperations : UInt64
  deriving DecidableEq, Repr, Inhabited

/-- The cost of a check that ran a number of times. -/
def CheckCost.of (o : CostOracle) (p : Program) (id : CheckId) (cone : List NodeId)
    (executions : Count) : CheckCost :=
  let costs := cone.map (o.cost p)
  { id
    cost := Count.sum (costs.map fun c => Count.mul c executions)
    freeOperations := UInt64.ofNat (costs.filter (· == 0)).length }

end GuardElision
