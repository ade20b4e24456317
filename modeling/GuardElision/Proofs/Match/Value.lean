import GuardElision.Program.Builder
import GuardElision.Proofs.Match.Shape
import Mathlib.Algebra.GroupWithZero.Nat

/-!
# Operands of one shape have one value

A valuation gives every operand of a program a value. Literals, externals, control merges,
operations without operands and positions without a node may have any value; every other
operation has the value that its opcode makes of the values of its operands. The operands may
go round in a circle: a valuation is any solution of these equations.

A comparison of shapes stops at equal operands and at its depth limit, and looks into
operations only where the equations hold, so a positive verdict is right under every
valuation. It is reached without a look at the session.
-/

namespace GuardElision

universe u

/-- The value of an operand, given those of nodes, literals and externals. -/
def Operand.value {V : Type u} (node : NodeId → V) (constant : Constant → V)
    (external : ExternalId → V) : Operand → V
  | .node id => node id
  | .constant c => constant c
  | .external e => external e

/-- Values for the operands of a program. -/
structure Valuation (p : Program) (V : Type u) where
  constant : Constant → V
  external : ExternalId → V
  node : NodeId → V
  /-- What an operation makes of the values of its operands. A memory read is applied to its
  address, so equal addresses hold equal values. -/
  apply : Opcode → List V → V
  /-- Operations are computed from their operands, apart from control merges. -/
  computed : ∀ id n, p.node? id = some n → n.isMerge = false → n.operands ≠ [] →
    node id = apply n.opcode (n.operands.map (Operand.value node constant external))

/-- The value of an operand. -/
def Valuation.operand {p : Program} {V : Type u} (v : Valuation p V) : Operand → V :=
  Operand.value v.node v.constant v.external

namespace Compare

variable {α β : Type}

/-- A comparison finds the same in every session. -/
def IgnoresSession (x : Compare α) : Prop := ∀ s, (x s).1 = x.verdict

theorem ignoresSession_pure (a : α) : IgnoresSession (pure a) := fun _ => rfl

theorem IgnoresSession.bind {x : Compare α} {f : α → Compare β} (hx : IgnoresSession x)
    (hf : ∀ a, IgnoresSession (f a)) : IgnoresSession (x >>= f) := by
  have hrun : ∀ s, ((x >>= f) s).1 = (f x.verdict).verdict := by
    intro s
    have hstep : ((x >>= f) s).1 = (f (x s).1 (x s).2).1 := rfl
    rw [hstep, hf, hx]
  intro s
  exact (hrun s).trans (hrun {}).symm

theorem IgnoresSession.allM {items : List α} {f : α → Compare Bool}
    (hf : ∀ a, IgnoresSession (f a)) : IgnoresSession (items.allM f) := by
  induction items with
  | nil => exact ignoresSession_pure true
  | cons a rest ih =>
    refine (hf a).bind fun b => ?_
    cases b
    · exact ignoresSession_pure false
    · exact ih

end Compare

namespace Match

open Compare

/-- Shapes are compared without slices. -/
theorem ignoresSession_sameShape (p : Program) (levels : Nat) (a b : Operand) :
    IgnoresSession (sameShape p levels a b) := by
  induction levels using Nat.strongRecOn generalizing a b with
  | ind levels ih =>
    rw [sameShape.eq_def]
    dsimp only
    split
    · exact ignoresSession_pure true
    · split
      · split
        · split
          · cases levels with
            | zero => exact fun _ => rfl
            | succ deeper =>
              exact IgnoresSession.allM fun pair => ih deeper (Nat.lt_succ_self deeper) pair.1 pair.2
          · exact ignoresSession_pure false
        · exact ignoresSession_pure false
      · exact ignoresSession_pure false

end Match

open Build in
/-- A loop counter, the control merge `⟨0⟩` of nought and its own successor, picks an element of an
array. The element is read and tested against a bound twice. -/
def repeatedTest : Program :=
  let steps : Build Unit := do
    let main ← procedure "main"
    let head ← block main
    let body ← block main
    let done ← block main
    let array ← external "array"
    let bound ← external "bound"
    let counter ← operation head .controlMerge [.constant (.int 0), .node ⟨1⟩]
    let _ ← operation body (.generic "add") [.node counter, .constant (.int 1)]
    let place ← operation head .addressComputation [.external array, .node counter]
    let element ← operation head .memoryRead [.node place]
    let below ← operation head (.generic "lt") [.node element, .external bound]
    let _ ← branch head (.node below) body done
    let place ← operation body .addressComputation [.external array, .node counter]
    let element ← operation body .memoryRead [.node place]
    let below ← operation body (.generic "lt") [.node element, .external bound]
    let _ ← branch body (.node below) head done
  (steps.run.run { name := "repeated" }).2

namespace Valuation

variable {p : Program} {V : Type u} (v : Valuation p V)

/-- Operations of one opcode whose operands have the same values, place by place, have the same
value. -/
theorem node_eq_of_operands {x y : NodeId} {m n : Node} (hx : p.node? x = some m)
    (hy : p.node? y = some n) (hcomparable : Match.comparable m n = true)
    (hparts : ∀ (i : Nat) (a b : Operand), m.operands[i]? = some a → n.operands[i]? = some b →
      v.operand a = v.operand b) : v.node x = v.node y := by
  obtain ⟨hop, hmerge, hlength, hne⟩ := (Match.comparable_iff m n).mp hcomparable
  obtain ⟨_, hmerge', _, hne'⟩ :=
    (Match.comparable_iff n m).mp (Match.comparable_symm hcomparable)
  have hvalues : m.operands.map v.operand = n.operands.map v.operand := by
    apply List.ext_getElem
    · simp only [List.length_map, hlength]
    · intro i hi hi'
      simp only [List.getElem_map]
      simp only [List.length_map] at hi hi'
      exact hparts i _ _ (List.getElem?_eq_getElem hi) (List.getElem?_eq_getElem hi')
  calc v.node x = v.apply m.opcode (m.operands.map v.operand) := v.computed x m hx hmerge hne
    _ = v.apply n.opcode (n.operands.map v.operand) := by rw [hop, hvalues]
    _ = v.node y := (v.computed y n hy hmerge' hne').symm

/-- Within any number of levels, operands of the same shape have the same value. -/
theorem operand_eq_of_sameShape {levels : Nat} {a b : Operand}
    (h : (Match.sameShape p levels a b).verdict = true) : v.operand a = v.operand b := by
  induction levels using Nat.strongRecOn generalizing a b with
  | ind levels ih =>
    rcases (Match.sameShape_verdict_iff p levels a b).mp h with
      rfl | ⟨x, y, m, n, rfl, rfl, hx, hy, hmn, deeper, rfl, hparts⟩
    · rfl
    · refine v.node_eq_of_operands hx hy hmn fun i u w hu hw => ?_
      exact ih deeper (Nat.lt_succ_self deeper) (hparts i u w hu hw)

/-- In every session and under every valuation, operands that a comparison of shapes calls the
same have the same value. At the two levels that compare shapes, then, a check that makes
another one superfluous tests a condition of the same value. -/
theorem shallow_value_eq (session : Session) :
    (∀ levels a b, (Match.sameShape p levels a b session).1 = true →
      v.operand a = v.operand b) ∧
    ∀ (s : Strategy) (candidate coverer : Check) (source : Source), s.level.isShallow = true →
      (s.subsumed p candidate coverer source session).1 = true →
        ∃ a b, p.condition? candidate.branch = some a ∧ p.condition? coverer.branch = some b ∧
          v.operand a = v.operand b := by
  have hshape : ∀ levels a b, (Match.sameShape p levels a b session).1 = true →
      v.operand a = v.operand b := by
    intro levels a b h
    rw [Match.ignoresSession_sameShape p levels a b session] at h
    exact v.operand_eq_of_sameShape h
  refine ⟨hshape, fun s candidate coverer source hlevel h => ?_⟩
  rw [Strategy.subsumed_of_isShallow hlevel] at h
  cases ha : p.condition? candidate.branch with
  | none =>
    rw [ha] at h
    cases h
  | some a =>
    cases hb : p.condition? coverer.branch with
    | none =>
      rw [ha, hb] at h
      cases h
    | some b =>
      rw [ha, hb] at h
      exact ⟨a, b, rfl, rfl, hshape s.maxDepth a b h⟩

/-- Values of one round of the loop: the counter is two, the array starts at a hundred, and a cell
holds its address modulo seven. -/
def secondRound : Valuation repeatedTest Nat where
  constant
    | .int w => w.toNat
    | _ => 0
  external e := if e.index = 0 then 100 else 5
  node id := [2, 3, 102, 4, 1, 1, 102, 4, 1, 1].getD id.index.toNat 0
  apply
    | .memoryRead, [address] => address % 7
    | .generic "lt", [x, y] => if x < y then 1 else 0
    | _, values => values.sum
  computed := (repeatedTest.forall_node_iff _).mpr (by decide +kernel)

/-- The second test of the element makes the first superfluous, and in the second round both
conditions hold. -/
theorem secondRound_value_eq :
    ((⟨.l1, "indvars", 32⟩ : Strategy).subsumed repeatedTest ⟨⟨1⟩, ⟨5⟩, .sanitizer, .address⟩
      ⟨⟨2⟩, ⟨9⟩, .sanitizer, .address⟩ .dominance {}).1 = true ∧
    secondRound.operand (.node ⟨4⟩) = 1 ∧
    ∃ a b, repeatedTest.condition? ⟨5⟩ = some a ∧ repeatedTest.condition? ⟨9⟩ = some b ∧
      secondRound.operand a = secondRound.operand b := by
  have hcovered : ((⟨.l1, "indvars", 32⟩ : Strategy).subsumed repeatedTest
      ⟨⟨1⟩, ⟨5⟩, .sanitizer, .address⟩ ⟨⟨2⟩, ⟨9⟩, .sanitizer, .address⟩ .dominance {}).1 = true := by
    decide +kernel
  exact ⟨hcovered, rfl, (secondRound.shallow_value_eq {}).2 _ _ _ _ rfl hcovered⟩

end Valuation

end GuardElision
