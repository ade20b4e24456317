import GuardElision.Proofs.Match.Depth
import GuardElision.Proofs.Match.Shape
import GuardElision.Proofs.Slice.Dependencies

/-!
# Slicing two operands in step

Two operands of the same shape can be sliced side by side: as long as the operations at a place
differ, they have one opcode and operands of the same shape, so slicing stops at both or goes on
from both, place by place. What the slice of one of them ends in is therefore found in the slice of
the other, or stands at the same place as another leaf of the same shape. The pairs of different
leaves that stand at the same place can be listed (`Match.leafPairs`).
-/

namespace GuardElision

namespace Program

variable {p : Program} {policy : LeafPolicy}

/-- Slicing reaches its root, and what it reaches from where it goes on. -/
theorem visits_iff {root id : NodeId} : p.Visits policy root id ↔ root ∈ p.nodeIds ∧
    (id = root ∨ ∃ next ∈ p.sliceNext policy root, p.Visits policy next id) := by
  constructor
  · intro h
    induction h with
    | seed hdomain hroot =>
      obtain rfl := List.mem_singleton.mp hroot
      exact ⟨hdomain, .inl rfl⟩
    | @step x y _ hdomain hnext ih =>
      obtain ⟨hroot, rfl | ⟨next, hmem, hvisits⟩⟩ := ih
      · exact ⟨hroot, .inr ⟨y, hnext, .seed hdomain (List.mem_singleton.mpr rfl)⟩⟩
      · exact ⟨hroot, .inr ⟨next, hmem, .step hvisits hdomain hnext⟩⟩
  · rintro ⟨hroot, rfl | ⟨next, hmem, hvisits⟩⟩
    · exact .seed hroot (List.mem_singleton.mpr rfl)
    · induction hvisits with
      | seed hdomain hnext =>
        obtain rfl := List.mem_singleton.mp hnext
        exact .step (.seed hroot (List.mem_singleton.mpr rfl)) hdomain hmem
      | step _ hdomain hnext ih => exact .step ih hdomain hnext

/-- The slice of an operation is the operation itself if it is a leaf, and else what the slices of
its operands are together; that of a literal is empty. -/
theorem mem_operandSlice_node_iff {x : NodeId} {leaf : Leaf} :
    leaf ∈ p.operandSlice policy (.node x) ↔ ∃ n, p.node? x = some n ∧ n.opcode ≠ .constant ∧
      (policy.isLeaf n = true ∧ leaf = .node x ∨
        policy.isLeaf n = false ∧ ∃ u ∈ n.operands, leaf ∈ p.operandSlice policy u) := by
  have hslice : leaf ∈ p.operandSlice policy (.node x) ↔ ∃ id, p.Visits policy x id ∧
      leaf ∈ p.sliceYield policy id := mem_backwardSlice_iff
  rw [hslice]
  constructor
  · rintro ⟨id, hvisits, hyield⟩
    obtain ⟨_, rfl | ⟨next, hnext, hvisits⟩⟩ := visits_iff.mp hvisits
    · obtain ⟨n, hn, hop, ⟨hleaf, rfl⟩ | ⟨hleaf, e, hmem, rfl⟩⟩ := mem_sliceYield_iff.mp hyield
      · exact ⟨n, hn, hop, .inl ⟨hleaf, rfl⟩⟩
      · exact ⟨n, hn, hop, .inr ⟨hleaf, .external e, hmem, Fingerprint.mem_singleton.mpr rfl⟩⟩
    · obtain ⟨n, hn, hexpands, hmem⟩ := mem_sliceNext_iff.mp hnext
      obtain ⟨hop, hleaf⟩ := (policy.expands_eq_true_iff n).mp hexpands
      exact ⟨n, hn, hop, .inr ⟨hleaf, .node next, hmem,
        mem_backwardSlice_iff.mpr ⟨id, hvisits, hyield⟩⟩⟩
  · rintro ⟨n, hn, hop, hrest⟩
    have hx : x ∈ p.nodeIds := (p.mem_nodeIds_iff x).mpr ⟨n, hn⟩
    rcases hrest with ⟨hleaf, rfl⟩ | ⟨hleaf, u, hu, hmem⟩
    · exact ⟨x, visits_iff.mpr ⟨hx, .inl rfl⟩, mem_sliceYield_iff.mpr ⟨n, hn, hop, .inl ⟨hleaf, rfl⟩⟩⟩
    · cases u with
      | constant value => exact absurd hmem (Fingerprint.not_mem_empty leaf)
      | external e =>
        obtain rfl := Fingerprint.mem_singleton.mp hmem
        exact ⟨x, visits_iff.mpr ⟨hx, .inl rfl⟩,
          mem_sliceYield_iff.mpr ⟨n, hn, hop, .inr ⟨hleaf, e, hu, rfl⟩⟩⟩
      | node next =>
        obtain ⟨id, hvisits, hyield⟩ := mem_backwardSlice_iff.mp hmem
        have hexpands := (policy.expands_eq_true_iff n).mpr ⟨hop, hleaf⟩
        exact ⟨id, visits_iff.mpr ⟨hx, .inr ⟨next, mem_sliceNext_iff.mpr ⟨n, hn, hexpands, hu⟩,
          hvisits⟩⟩, hyield⟩

end Program

namespace Match

open Compare Program

variable {p : Program} {leaves : LeafPolicy} {levels : Nat} {a b : Operand}

/-- Operands of the same shape keep it when more levels are allowed. -/
theorem sameShape_mono {more : Nat} (h : (sameShape p levels a b).verdict = true)
    (hle : levels ≤ more) : (sameShape p more a b).verdict = true :=
  (deepens_sameShape p hle a b).accepts h

theorem SameParts.mono {more : Nat} {m n : Node} (h : SameParts p levels m n)
    (hle : levels ≤ more) : SameParts p more m n := by
  obtain ⟨deeper, rfl, hparts⟩ := h
  obtain ⟨deeper', rfl⟩ : ∃ deeper', more = deeper' + 1 := ⟨more - 1, by omega⟩
  exact ⟨deeper', rfl, fun i u v hu hv => sameShape_mono (hparts i u v hu hv) (by omega)⟩

/-- Different operands of the same shape are both operations. -/
theorem nodes_of_sameShape (h : (sameShape p levels a b).verdict = true) (hne : a ≠ b) :
    ∃ x y, a = .node x ∧ b = .node y := by
  rcases (sameShape_verdict_iff p levels a b).mp h with rfl | ⟨x, y, _, _, ha, hb, _⟩
  · exact absurd rfl hne
  · exact ⟨x, y, ha, hb⟩

/-- It takes a level to find that different operands have the same shape. -/
theorem one_le_of_sameShape (h : (sameShape p levels a b).verdict = true) (hne : a ≠ b) :
    1 ≤ levels := by
  rcases (sameShape_verdict_iff p levels a b).mp h with
    rfl | ⟨_, _, _, _, _, _, _, _, _, deeper, hlevels, _⟩
  · exact absurd rfl hne
  · omega

/-- Of two operations with operands of the same shape, both depend on other operations or
neither does. -/
theorem nodeOperands_isEmpty_eq {m n : Node} (hlength : m.operands.length = n.operands.length)
    (h : SameParts p levels m n) : m.nodeOperands.isEmpty = n.nodeOperands.isEmpty := by
  obtain ⟨deeper, _, hparts⟩ := h
  have hkinds : m.operands.map (fun u => u.node?.isSome) =
      n.operands.map fun u => u.node?.isSome := by
    apply List.ext_getElem
    · rw [List.length_map, List.length_map, hlength]
    · intro i hi hi'
      rw [List.length_map] at hi hi'
      rw [List.getElem_map, List.getElem_map]
      have hshape := hparts i _ _ (List.getElem?_eq_getElem hi) (List.getElem?_eq_getElem hi')
      by_cases heq : m.operands[i] = n.operands[i]
      · rw [heq]
      · obtain ⟨x, y, hx, hy⟩ := nodes_of_sameShape hshape heq
        rw [hx, hy]
        rfl
  have hempty : ∀ k : Node, k.nodeOperands.isEmpty =
      (k.operands.map fun u => u.node?.isSome).all (! ·) := by
    intro k
    rw [Bool.eq_iff_iff]
    simp [Node.nodeOperands, List.filterMap_eq_nil_iff]
  rw [hempty, hempty, hkinds]

/-- Slicing stops at both of two operations of the same shape, or at neither. -/
theorem isLeaf_eq_of_sameParts {m n : Node} (hmn : comparable m n = true)
    (h : SameParts p levels m n) (leaves : LeafPolicy) : leaves.isLeaf m = leaves.isLeaf n := by
  obtain ⟨hop, _, hlength, _⟩ := (comparable_iff m n).mp hmn
  have hempty := nodeOperands_isEmpty_eq hlength h
  unfold LeafPolicy.isLeaf
  rw [hop, hempty]

/-- The different leaves that stand at the same place when two operands are sliced in step, within
the given number of levels. -/
def leafPairs (p : Program) (leaves : LeafPolicy) :
    Nat → Operand → Operand → List (NodeId × NodeId)
  | levels + 1, .node x, .node y =>
    if x = y then []
    else
      match p.node? x, p.node? y with
      | some m, some n =>
        if leaves.expands m then
          (m.operands.zip n.operands).flatMap fun (u, v) => leafPairs p leaves levels u v
        else if m.opcode = .constant then []
        else [(x, y)]
      | _, _ => []
  | _, _, _ => []

/-- A leaf of one operand and a different leaf of the same shape that stands at the same place in
the other operand. -/
structure Paired (p : Program) (leaves : LeafPolicy) (levels : Nat) (a b : Operand) (x y : NodeId)
    (m n : Node) : Prop where
  left : p.node? x = some m
  right : p.node? y = some n
  ne : x ≠ y
  listed : (x, y) ∈ leafPairs p leaves levels a b
  covering : Leaf.node y ∈ p.operandSlice leaves b
  isLeaf : leaves.isLeaf m = true
  opcode_ne : m.opcode ≠ .constant
  comparable : comparable m n = true
  parts : SameParts p levels m n

/-- Each leaf of an operand is a leaf of every operand of the same shape, or a different leaf of the
same shape stands at its place there. -/
theorem mem_or_paired (h : (sameShape p levels a b).verdict = true) {leaf : Leaf}
    (hleaf : leaf ∈ p.operandSlice leaves a) :
    leaf ∈ p.operandSlice leaves b ∨
      ∃ x y m n, leaf = .node x ∧ Paired p leaves levels a b x y m n := by
  induction levels generalizing a b with
  | zero =>
    rcases (sameShape_verdict_iff p 0 a b).mp h with rfl | ⟨_, _, _, _, _, _, _, _, _, _, hlevels, _⟩
    · exact .inl hleaf
    · cases hlevels
  | succ deeper ih =>
    rcases (sameShape_verdict_iff p _ a b).mp h with
      rfl | ⟨x, y, m, n, rfl, rfl, hx, hy, hmn, hparts⟩
    · exact .inl hleaf
    by_cases hxy : x = y
    · exact .inl (hxy ▸ hleaf)
    obtain ⟨hop, _, hlength, _⟩ := (comparable_iff m n).mp hmn
    have hstops := isLeaf_eq_of_sameParts hmn hparts leaves
    obtain ⟨m', hx', hconstant, hrest⟩ := mem_operandSlice_node_iff.mp hleaf
    obtain rfl := Option.some.inj (hx.symm.trans hx')
    have hconstant' : n.opcode ≠ .constant := hop ▸ hconstant
    rcases hrest with ⟨hstop, rfl⟩ | ⟨hgoes, u, hu, hmem⟩
    · -- slicing stops at both operations
      refine .inr ⟨x, y, m, n, rfl, hx, hy, hxy, ?_, ?_, hstop, hconstant, hmn, hparts⟩
      · simp [leafPairs, hxy, hx, hy, LeafPolicy.expands, hstop, hconstant]
      · exact mem_operandSlice_node_iff.mpr ⟨n, hy, hconstant', .inl ⟨hstops ▸ hstop, rfl⟩⟩
    · -- slicing goes on from both, place by place
      obtain ⟨v, hv, hpair⟩ := exists_mem_zip hlength hu
      have hinto : ∀ leaf, leaf ∈ p.operandSlice leaves v →
          leaf ∈ p.operandSlice leaves (.node y) := by
        intro leaf hmem
        exact mem_operandSlice_node_iff.mpr ⟨n, hy, hconstant',
          .inr ⟨hstops ▸ hgoes, v, hv, hmem⟩⟩
      rcases ih (hparts.sameShape_of_mem_zip hpair) hmem with
        hmem | ⟨x', y', m', n', rfl, hpaired⟩
      · exact .inl (hinto _ hmem)
      · refine .inr ⟨x', y', m', n', rfl, { hpaired with
          listed := ?_
          covering := hinto _ hpaired.covering
          parts := hpaired.parts.mono (Nat.le_succ _) }⟩
        have hexpands : leaves.expands m = true :=
          (leaves.expands_eq_true_iff m).mpr ⟨hconstant, hgoes⟩
        simp only [leafPairs, hxy, if_false, hx, hy, hexpands, if_true, List.mem_flatMap]
        exact ⟨_, hpair, hpaired.listed⟩

end Match

end GuardElision
