import GuardElision.Program.Basic
import GuardElision.Reach

/-!
# Control flow of one procedure

A procedure's blocks and the jumps between them. Jumps that leave the procedure are
ignored; a block without a jump inside the procedure is an exit. A block that is listed but
does not exist has no jumps and is no exit.
-/

namespace GuardElision

/-- The control flow of one procedure. -/
structure FlowGraph where
  entry : BlockId
  blocks : List BlockId
  /-- The jumps inside the procedure, by the block they leave. -/
  jumps : List (BlockId × List BlockId)
  deriving DecidableEq, Repr

namespace FlowGraph

/-- The blocks that can run next. -/
def next (g : FlowGraph) (b : BlockId) : List BlockId := (g.jumps.lookup b).getD []

/-- The blocks that can have run before. -/
def previous (g : FlowGraph) (b : BlockId) : List BlockId :=
  g.blocks.filter fun c => (g.next c).contains b

/-- The same blocks with every jump turned around. -/
def reversed (g : FlowGraph) : FlowGraph :=
  { g with jumps := g.blocks.map fun b => (b, g.previous b) }

/-- The blocks at which the procedure ends. -/
def exits (g : FlowGraph) : List BlockId :=
  (g.jumps.filter fun j => j.2.isEmpty).map (·.1)

/-- The flow graph of a procedure whose entry is one of its blocks. -/
def of? (p : Program) (id : ProcedureId) : Option FlowGraph := do
  let f ← p.procedure? id
  if f.blocks.contains f.entry then
    return {
      entry := f.entry
      blocks := f.blocks
      jumps := f.blocks.filterMap fun b =>
        (p.block? b).map fun block => (b, block.successors.filter f.blocks.contains) }
  else
    none

/-- The blocks other than `gone`. -/
def without (g : FlowGraph) (gone : BlockId) : List BlockId := g.blocks.filter (· != gone)

/-- The blocks that can be reached from the entry. -/
def live (g : FlowGraph) : List BlockId := Reach.gather g.next g.blocks [g.entry]

/-- The blocks that can be reached from the entry without passing `gone`. -/
def liveWithout (g : FlowGraph) (gone : BlockId) : List BlockId :=
  Reach.gather g.next (g.without gone) [g.entry]

/-- The blocks from which an exit can be reached; `back` is the graph turned around. -/
def ending (g back : FlowGraph) : List BlockId := Reach.gather back.next g.blocks g.exits

/-- The blocks from which an exit can be reached without passing `gone`. -/
def endingWithout (g back : FlowGraph) (gone : BlockId) : List BlockId :=
  Reach.gather back.next (g.without gone) g.exits

/-- The blocks that run only after `a` has run: reachable, but not when `a` is taken away. -/
def dominatedBy (g : FlowGraph) (a : BlockId) : List BlockId :=
  let others := g.liveWithout a
  g.live.filter fun b => !others.contains b

/-- The blocks from which the procedure ends only by way of `a`. -/
def postDominatedBy (g back : FlowGraph) (a : BlockId) : List BlockId :=
  let others := g.endingWithout back a
  (g.ending back).filter fun b => !others.contains b

end FlowGraph

end GuardElision
