import GuardElision.Program.Identifier

/-!
# Operation nodes

A node is one operation of the intermediate representation: an opcode, its operands,
the block that holds it and, for a branch, the blocks it can continue in. Operands
point at other nodes, at constants or at external names, so the nodes of a program
form a graph that may have cycles through control merges.
-/

namespace GuardElision

/-- What an operation does. -/
inductive Opcode where
  /-- An operation known only by its name. -/
  | generic (name : String)
  /-- A load from memory; its operand is the address. -/
  | memoryRead
  /-- A base address and its offsets. -/
  | addressComputation
  /-- A value that depends on which predecessor ran. -/
  | controlMerge
  /-- A two-way branch on a condition. -/
  | condBranch
  /-- A literal. -/
  | constant
  deriving DecidableEq, Repr, Inhabited

/-- The name by which costs are listed and messages speak of an opcode. -/
def Opcode.mnemonic : Opcode → String
  | .generic name => name
  | .memoryRead => "load"
  | .addressComputation => "address"
  | .controlMerge => "merge"
  | .condBranch => "br"
  | .constant => "const"

/-- A literal operand. -/
inductive Constant where
  | int (value : UInt64)
  | bool (value : Bool)
  | symbol (name : String)
  deriving DecidableEq, Repr, Inhabited

/-- What an operation is applied to. -/
inductive Operand where
  | node (id : NodeId)
  | constant (value : Constant)
  | external (id : ExternalId)
  deriving DecidableEq, Repr, Inhabited

namespace Operand

/-- The node an operand points at. -/
def node? : Operand → Option NodeId
  | .node id => some id
  | _ => none

/-- The integer an operand is. -/
def int? : Operand → Option UInt64
  | .constant (.int value) => some value
  | _ => none

/-- The external an operand names. -/
def external? : Operand → Option ExternalId
  | .external id => some id
  | _ => none

/-- Whether an operand is a literal. -/
def isConstant : Operand → Bool
  | .constant _ => true
  | _ => false

end Operand

/-- One operation of a program. -/
structure Node where
  id : NodeId
  opcode : Opcode
  operands : List Operand
  /-- The block that holds the operation. -/
  block : BlockId
  /-- The name that a compiler pass gave to the value. -/
  name : Option String := none
  /-- Where a branch can continue. -/
  successors : List BlockId := []
  deriving DecidableEq, Repr, Inhabited

namespace Node

/-- The nodes among the operands, in order. -/
def nodeOperands (n : Node) : List NodeId := n.operands.filterMap Operand.node?

theorem mem_nodeOperands_iff {n : Node} {id : NodeId} :
    id ∈ n.nodeOperands ↔ .node id ∈ n.operands := by
  simp only [nodeOperands, List.mem_filterMap]
  constructor
  · rintro ⟨operand, hmem, hnode⟩
    cases operand <;> simp [Operand.node?] at hnode
    exact hnode ▸ hmem
  · exact fun hmem => ⟨_, hmem, rfl⟩

/-- The externals among the operands, in order. -/
def externalOperands (n : Node) : List ExternalId := n.operands.filterMap Operand.external?

/-- Whether the node joins values of several predecessors. -/
def isMerge (n : Node) : Bool := n.opcode == .controlMerge

/-- Whether the node branches two ways. -/
def isCondBranch (n : Node) : Bool := n.opcode == .condBranch && n.successors.length == 2

/-- What a two-way branch tests. -/
def condition? (n : Node) : Option Operand :=
  if n.isCondBranch then n.operands.head? else none

end Node

end GuardElision
