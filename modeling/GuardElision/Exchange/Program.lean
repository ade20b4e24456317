import GuardElision.Json.Decode
import GuardElision.Program.Basic

/-!
# Programs as JSON

The exchange form of a program. Names, labels and branch targets that are absent are
left out when written, and their absence is read back; every other field is required.
-/

namespace GuardElision

/-- How a node's position is written as JSON. -/
def NodeId.toJson (id : NodeId) : Json := .word id.index.toUInt64

/-- Read a node's position from JSON. -/
def NodeId.ofJson? (j : Json) : Option NodeId := j.word32?.map NodeId.mk

/-- How a block's position is written as JSON. -/
def BlockId.toJson (id : BlockId) : Json := .word id.index.toUInt64

/-- Read a block's position from JSON. -/
def BlockId.ofJson? (j : Json) : Option BlockId := j.word32?.map BlockId.mk

/-- How a procedure's position is written as JSON. -/
def ProcedureId.toJson (id : ProcedureId) : Json := .word id.index.toUInt64

/-- Read a procedure's position from JSON. -/
def ProcedureId.ofJson? (j : Json) : Option ProcedureId := j.word32?.map ProcedureId.mk

/-- How an external's position is written as JSON. -/
def ExternalId.toJson (id : ExternalId) : Json := .word id.index.toUInt64

/-- Read an external's position from JSON. -/
def ExternalId.ofJson? (j : Json) : Option ExternalId := j.word32?.map ExternalId.mk

/-- A named opcode is an object; the others are their names. -/
def Opcode.toJson : Opcode → Json
  | .generic name => .object [("generic", .string name)]
  | .memoryRead => .string "memory_read"
  | .addressComputation => .string "address_computation"
  | .controlMerge => .string "control_merge"
  | .condBranch => .string "cond_branch"
  | .constant => .string "constant"

/-- Read an opcode from JSON. -/
def Opcode.ofJson? (j : Json) : Option Opcode := do
  let (name, data) ← j.variant?
  match name, data with
  | "generic", some value => return .generic (← value.string?)
  | "memory_read", data => (Json.noData? data).map fun _ => .memoryRead
  | "address_computation", data => (Json.noData? data).map fun _ => .addressComputation
  | "control_merge", data => (Json.noData? data).map fun _ => .controlMerge
  | "cond_branch", data => (Json.noData? data).map fun _ => .condBranch
  | "constant", data => (Json.noData? data).map fun _ => .constant
  | _, _ => none

/-- How a literal is written as JSON. -/
def Constant.toJson : Constant → Json
  | .int value => .object [("int", .word value)]
  | .bool value => .object [("bool", .bool value)]
  | .symbol name => .object [("symbol", .string name)]

/-- Read a literal from JSON. -/
def Constant.ofJson? (j : Json) : Option Constant := do
  match ← j.variant? with
  | ("int", some value) => return .int (← value.word?)
  | ("bool", some value) => return .bool (← value.bool?)
  | ("symbol", some value) => return .symbol (← value.string?)
  | _ => none

/-- How an operand is written as JSON. -/
def Operand.toJson : Operand → Json
  | .node id => .object [("node", id.toJson)]
  | .constant value => .object [("constant", value.toJson)]
  | .external id => .object [("external", id.toJson)]

/-- Read an operand from JSON. -/
def Operand.ofJson? (j : Json) : Option Operand := do
  match ← j.variant? with
  | ("node", some value) => return .node (← NodeId.ofJson? value)
  | ("constant", some value) => return .constant (← Constant.ofJson? value)
  | ("external", some value) => return .external (← ExternalId.ofJson? value)
  | _ => none

/-- An array of encoded items. -/
def Json.ofList {α : Type} (encode : α → Json) (items : List α) : Json := .array (items.map encode)

/-- How a node is written as JSON. -/
def Node.toJson (n : Node) : Json :=
  .object <|
    [("id", n.id.toJson), ("opcode", n.opcode.toJson),
      ("operands", .ofList Operand.toJson n.operands), ("block", n.block.toJson)] ++
    Json.optionalField "name" .string n.name ++
    (if n.successors.isEmpty then [] else [("successors", .ofList BlockId.toJson n.successors)])

/-- Read a node from JSON. -/
def Node.ofJson? (j : Json) : Option Node := do
  let f ← j.fields? ["id", "opcode", "operands", "block", "name", "successors"]
  return {
    id := ← f.required "id" NodeId.ofJson?
    opcode := ← f.required "opcode" Opcode.ofJson?
    operands := ← f.required "operands" (Json.list? Operand.ofJson?)
    block := ← f.required "block" BlockId.ofJson?
    name := ← f.optional "name" Json.string?
    successors := ← f.defaulted "successors" [] (Json.list? BlockId.ofJson?) }

/-- How a block is written as JSON. -/
def Block.toJson (b : Block) : Json :=
  .object <|
    [("id", b.id.toJson), ("procedure", b.procedure.toJson),
      ("successors", .ofList BlockId.toJson b.successors)] ++
    Json.optionalField "label" .string b.label

/-- Read a block from JSON. -/
def Block.ofJson? (j : Json) : Option Block := do
  let f ← j.fields? ["id", "procedure", "successors", "label"]
  return {
    id := ← f.required "id" BlockId.ofJson?
    procedure := ← f.required "procedure" ProcedureId.ofJson?
    successors := ← f.required "successors" (Json.list? BlockId.ofJson?)
    label := ← f.optional "label" Json.string? }

/-- How a procedure is written as JSON. -/
def Procedure.toJson (f : Procedure) : Json :=
  .object [("id", f.id.toJson), ("name", .string f.name), ("entry", f.entry.toJson),
    ("blocks", .ofList BlockId.toJson f.blocks)]

/-- Read a procedure from JSON. -/
def Procedure.ofJson? (j : Json) : Option Procedure := do
  let f ← j.fields? ["id", "name", "entry", "blocks"]
  return {
    id := ← f.required "id" ProcedureId.ofJson?
    name := ← f.required "name" Json.string?
    entry := ← f.required "entry" BlockId.ofJson?
    blocks := ← f.required "blocks" (Json.list? BlockId.ofJson?) }

/-- How a program is written as JSON. -/
def Program.toJson (p : Program) : Json :=
  .object [("name", .string p.name), ("nodes", .ofList Node.toJson p.nodes.toList),
    ("blocks", .ofList Block.toJson p.blocks.toList),
    ("procedures", .ofList Procedure.toJson p.procedures.toList),
    ("externals", .ofList .string p.externals.toList)]

/-- Read a program from JSON. -/
def Program.ofJson? (j : Json) : Option Program := do
  let f ← j.fields? ["name", "nodes", "blocks", "procedures", "externals"]
  return {
    name := ← f.required "name" Json.string?
    nodes := (← f.required "nodes" (Json.list? Node.ofJson?)).toArray
    blocks := (← f.required "blocks" (Json.list? Block.ofJson?)).toArray
    procedures := (← f.required "procedures" (Json.list? Procedure.ofJson?)).toArray
    externals := (← f.required "externals" (Json.list? Json.string?)).toArray }

end GuardElision
