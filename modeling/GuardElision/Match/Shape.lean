import GuardElision.Match.Session
import GuardElision.Slice.Cone

/-!
# Same shape, and induction guards

Two operands have the same shape when they are the same operand, or operations of the same
opcode and positive arity, other than control merges, whose operands have the same shape
one by one. An induction guard tests a value that depends on a single control merge, the
induction variable of a loop, which is told by its name.
-/

namespace GuardElision.Match

/-- Two different operations that may have the same shape. -/
def comparable (a b : Node) : Bool :=
  a.opcode == b.opcode && !a.isMerge && a.operands.length == b.operands.length &&
    !a.operands.isEmpty

/-- Whether two operands have the same shape, within the given number of levels. -/
def sameShape (p : Program) : Nat → Operand → Operand → Compare Bool
  | levels, a, b =>
    if a = b then pure true
    else
      match a, b with
      | .node x, .node y =>
        match p.node? x, p.node? y with
        | some m, some n =>
          if comparable m n then
            match levels with
            | 0 => Compare.cutOff
            | levels + 1 => (m.operands.zip n.operands).allM fun (u, v) => sameShape p levels u v
          else pure false
        | _, _ => pure false
      | _, _ => pure false

/-- Whether a branch tests nothing but an induction variable. -/
def isInductionGuard (p : Program) (branch : NodeId) (stem : String) : Bool :=
  match p.condition? branch with
  | none => false
  | some condition =>
    match p.mergeFrontier condition with
    | [merge] =>
      match (p.node? merge).bind (·.name) with
      | some name => stem.toList.isPrefixOf name.toList
      | none => false
    | _ => false

end GuardElision.Match
