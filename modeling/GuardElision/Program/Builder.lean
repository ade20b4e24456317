import GuardElision.Program.Basic

/-!
# Building programs

A program is grown by appending: every new item takes the next position as its
identifier. A step that names a procedure or block which does not exist fails, and
what it had appended before it noticed stays in the program.
-/

namespace GuardElision

/-- Why a building step failed. -/
inductive BuildError where
  /-- A block was asked for in a procedure that does not exist. -/
  | missingProcedure (id : ProcedureId)
  /-- A jump leaves a block that does not exist. -/
  | missingBlock (id : BlockId)
  deriving DecidableEq, Repr

/-- A step that grows a program; a failed step keeps what it had appended. -/
abbrev Build := ExceptT BuildError (StateM Program)

namespace Build

/-- The entry of a procedure that has no block yet. -/
def noEntry : BlockId := ⟨0xFFFFFFFF⟩

/-- Append a procedure without blocks. -/
def procedure (name : String) : Build ProcedureId := do
  let p ← get
  let id : ProcedureId := ⟨UInt32.ofNat p.procedures.size⟩
  set { p with procedures := p.procedures.push { id, name, entry := noEntry, blocks := [] } }
  return id

/-- List a block in its procedure; the first one listed becomes the entry. -/
def enlist (f : Procedure) (id : BlockId) : Procedure :=
  { f with
    entry := if f.blocks.isEmpty then id else f.entry
    blocks := f.blocks ++ [id] }

/-- Append a block to a procedure. -/
def block (owner : ProcedureId) (label : Option String := none) : Build BlockId := do
  let p ← get
  let id : BlockId := ⟨UInt32.ofNat p.blocks.size⟩
  set { p with blocks := p.blocks.push { id, procedure := owner, successors := [], label } }
  match p.procedure? owner with
  | none => throw (.missingProcedure owner)
  | some f =>
    modify fun q =>
      { q with procedures := q.procedures.setIfInBounds owner.index.toNat (enlist f id) }
    return id

/-- Let one block continue in another; a repeated jump is recorded once. -/
def jump (source target : BlockId) : Build Unit := do
  let p ← get
  match p.block? source with
  | none => throw (.missingBlock source)
  | some b =>
    if b.successors.contains target then
      return ()
    else
      set { p with
        blocks := p.blocks.setIfInBounds source.index.toNat
          { b with successors := b.successors ++ [target] } }

/-- Append the name of an external. -/
def external (name : String) : Build ExternalId := do
  let p ← get
  set { p with externals := p.externals.push name }
  return ⟨UInt32.ofNat p.externals.size⟩

/-- Append an operation. -/
def operation (block : BlockId) (opcode : Opcode) (operands : List Operand)
    (name : Option String := none) (successors : List BlockId := []) : Build NodeId := do
  let p ← get
  let id : NodeId := ⟨UInt32.ofNat p.nodes.size⟩
  set { p with nodes := p.nodes.push { id, opcode, operands, block, name, successors } }
  return id

/-- End a block with a two-way branch. -/
def branch (block : BlockId) (condition : Operand) (left right : BlockId) : Build NodeId := do
  jump block left
  jump block right
  operation block .condBranch [condition] none [left, right]

end Build

end GuardElision
