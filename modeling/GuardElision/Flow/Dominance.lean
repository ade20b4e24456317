import GuardElision.Flow.Graph

/-!
# Dominance

A block dominates another when every run that reaches the other has passed it, and
post-dominates it when every run from there to the end of the procedure will pass it. Both
relations hold only between blocks of one procedure, and neither holds of a block that no
run reaches or, for post-dominance, that no run leaves.

The relations are tabulated once per procedure. The immediate dominator of a block is found by a
walk through its other dominators, which stand in line, so that of any two one is closer.
-/

namespace GuardElision

/-- The blocks that each block of a list stands before, in one of the two relations. -/
structure DominanceTable where
  rows : List (BlockId × List BlockId)
  deriving DecidableEq, Repr

namespace DominanceTable

/-- The table of a relation given row by row. -/
def tabulate (blocks : List BlockId) (row : BlockId → List BlockId) : DominanceTable :=
  ⟨blocks.map fun a => (a, row a)⟩

/-- Whether `a` stands before `b`. -/
def relates (t : DominanceTable) (a b : BlockId) : Bool :=
  match t.rows.lookup a with
  | some row => row.contains b
  | none => false

/-- Whether `a` stands before `b` and is another block. -/
def strictly (t : DominanceTable) (a b : BlockId) : Bool := a != b && t.relates a b

/-- The second of two blocks if the first stands before it, and otherwise the first. -/
def later (t : DominanceTable) (a b : BlockId) : BlockId := if t.relates a b then b else a

/-- The closest block that stands strictly before `b`: of two such blocks, the later one is kept. -/
def closest? (t : DominanceTable) (b : BlockId) : Option BlockId :=
  match (t.rows.map (·.1)).filter fun a => t.strictly a b with
  | [] => none
  | a :: rest => some (rest.foldl t.later a)

end DominanceTable

/-- Both relations of one procedure. -/
structure ProcedureDominance where
  forward : DominanceTable
  backward : DominanceTable
  deriving DecidableEq, Repr

/-- Both relations of a flow graph. -/
def FlowGraph.dominance (g : FlowGraph) : ProcedureDominance :=
  let back := g.reversed
  { forward := .tabulate g.blocks g.dominatedBy
    backward := .tabulate g.blocks (g.postDominatedBy back) }

/-- Dominance and post-dominance in a whole program. -/
structure Dominance where
  procedures : List (ProcedureId × ProcedureDominance) := []
  /-- The procedure that each block belongs to; the latest entry of a block counts. -/
  owners : List (BlockId × ProcedureId) := []
  deriving DecidableEq, Repr

namespace Dominance

/-- Add the relations of one listed procedure, if it has any. -/
def add (p : Program) (d : Dominance) (f : Procedure) : Dominance :=
  match FlowGraph.of? p f.id with
  | none => d
  | some g =>
    { procedures := (f.id, g.dominance) :: d.procedures.filter (fun entry => entry.1 != f.id)
      owners := f.blocks.map (fun b => (b, f.id)) ++ d.owners }

/-- The relations of all procedures of a program. -/
def ofProgram (p : Program) : Dominance := p.procedures.toList.foldl (add p) {}

/-- The relations of the procedure that a block belongs to. -/
def at? (d : Dominance) (b : BlockId) : Option ProcedureDominance := do
  d.procedures.lookup (← d.owners.lookup b)

/-- Whether two blocks belong to the same procedure. -/
def together (d : Dominance) (a b : BlockId) : Bool :=
  match d.owners.lookup a, d.owners.lookup b with
  | some f, some g => f == g
  | _, _ => false

/-- Whether every run that reaches `b` has passed `a`. -/
def dominates (d : Dominance) (a b : BlockId) : Bool :=
  match d.at? b with
  | some f => d.together a b && f.forward.relates a b
  | none => false

/-- Whether every run from `b` to the end of the procedure passes `a`. -/
def postDominates (d : Dominance) (a b : BlockId) : Bool :=
  match d.at? b with
  | some f => d.together a b && f.backward.relates a b
  | none => false

/-- The closest other block that dominates `b`. -/
def immediateDominator? (d : Dominance) (b : BlockId) : Option BlockId := do
  (← d.at? b).forward.closest? b

/-- The closest other block that post-dominates `b`. -/
def immediatePostDominator? (d : Dominance) (b : BlockId) : Option BlockId := do
  (← d.at? b).backward.closest? b

/-- The number of procedures whose flow is known. -/
def procedureCount (d : Dominance) : Nat := d.procedures.length

end Dominance

end GuardElision
