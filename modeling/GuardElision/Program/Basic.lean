import GuardElision.Program.Node

/-!
# Programs

A program is one compilation unit: arenas of nodes, blocks and procedures that refer
to each other by position. Every look-up goes by position and answers `none` for a
position outside the arena, so a program may hold dangling references; the stored
`id` fields are labels and take no part in look-ups.
-/

namespace GuardElision

/-- A straight-line piece of a procedure. -/
structure Block where
  id : BlockId
  /-- The procedure the block belongs to. -/
  procedure : ProcedureId
  /-- The blocks that can run next. -/
  successors : List BlockId
  label : Option String := none
  deriving DecidableEq, Repr, Inhabited

/-- A procedure as a list of blocks with a distinguished first one. -/
structure Procedure where
  id : ProcedureId
  name : String
  entry : BlockId
  blocks : List BlockId
  deriving DecidableEq, Repr, Inhabited

/-- One compilation unit. -/
structure Program where
  name : String
  nodes : Array Node := #[]
  blocks : Array Block := #[]
  procedures : Array Procedure := #[]
  externals : Array String := #[]
  deriving DecidableEq, Repr, Inhabited

namespace Program

/-- The node at a position. -/
def node? (p : Program) (id : NodeId) : Option Node := p.nodes[id.index.toNat]?

/-- The block at a position. -/
def block? (p : Program) (id : BlockId) : Option Block := p.blocks[id.index.toNat]?

/-- The procedure at a position. -/
def procedure? (p : Program) (id : ProcedureId) : Option Procedure :=
  p.procedures[id.index.toNat]?

/-- The name of an external. -/
def externalName? (p : Program) (id : ExternalId) : Option String :=
  p.externals[id.index.toNat]?

/-- The procedure that holds a node, by way of the node's block. -/
def procedureOf? (p : Program) (id : NodeId) : Option ProcedureId := do
  let n ← p.node? id
  let b ← p.block? n.block
  return b.procedure

/-- What the branch at a node tests, if there is a two-way branch at that node. -/
def condition? (p : Program) (branch : NodeId) : Option Operand := do
  (← p.node? branch).condition?

/-- The positions of all nodes, in order; a node behind the last position cannot be named. -/
def nodeIds (p : Program) : List NodeId :=
  (List.range (min p.nodes.size UInt32.size)).map fun i => ⟨UInt32.ofNat i⟩

/-- The listed positions are exactly those at which a node is found. -/
theorem mem_nodeIds_iff (p : Program) (id : NodeId) :
    id ∈ p.nodeIds ↔ ∃ n, p.node? id = some n := by
  simp only [nodeIds, node?, List.mem_map, List.mem_range, Array.getElem?_eq_some_iff]
  constructor
  · rintro ⟨i, hi, rfl⟩
    have hle : (UInt32.ofNat i).toNat ≤ i := by
      rw [UInt32.toNat_ofNat']
      exact Nat.mod_le _ _
    exact ⟨_, Nat.lt_of_le_of_lt hle (Nat.lt_of_lt_of_le hi (Nat.min_le_left _ _)), rfl⟩
  · rintro ⟨_, h, _⟩
    exact ⟨id.index.toNat, Nat.lt_min.mpr ⟨h, id.index.toNat_lt_size⟩, by simp⟩

/-- What is true of every node is true at every listed position. -/
theorem forall_node_iff (p : Program) (holds : NodeId → Node → Prop) :
    (∀ id n, p.node? id = some n → holds id n) ↔
      ∀ id ∈ p.nodeIds, ∀ n ∈ p.node? id, holds id n := by
  constructor
  · intro h id _ n hn
    exact h id n hn
  · intro h id n hn
    exact h id ((p.mem_nodeIds_iff id).mpr ⟨n, hn⟩) n hn

end Program

end GuardElision
