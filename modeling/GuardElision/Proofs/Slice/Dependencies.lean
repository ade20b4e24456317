import GuardElision.Slice.Memo

/-!
# What a value depends on

A value depends on the externals and the control merges that can be reached from it through
operands. Nothing is reached behind a control merge or a literal, and the graph of operands
may have cycles, so dependence is the existence of a path. A backward slice stops earlier, at
its leaves, but loses no dependency and adds none: the leaves of a slice together depend on
exactly what its root depends on.
-/

namespace GuardElision

namespace Program

/-- An operand depends on an external or a control merge. -/
inductive DependsOn (p : Program) : Operand → Leaf → Prop where
  /-- An external depends on itself. -/
  | external (e : ExternalId) : DependsOn p (.external e) (.external e)
  /-- A control merge depends on itself and on nothing else. -/
  | merge {id : NodeId} {n : Node} : p.node? id = some n → n.isMerge = true →
      DependsOn p (.node id) (.node id)
  /-- Any other operation but a literal depends on what its operands depend on. -/
  | through {id : NodeId} {n : Node} {operand : Operand} {source : Leaf} :
      p.node? id = some n → n.isMerge = false → n.opcode ≠ .constant → operand ∈ n.operands →
      DependsOn p operand source → DependsOn p (.node id) source

/-- All that one operand depends on, another one depends on as well. -/
def DependsWithin (p : Program) (a b : Operand) : Prop :=
  ∀ source, p.DependsOn a source → p.DependsOn b source

variable {p : Program}

theorem dependsOn_external_iff {e : ExternalId} {source : Leaf} :
    p.DependsOn (.external e) source ↔ source = .external e := by
  constructor
  · intro h
    cases h
    rfl
  · rintro rfl
    exact .external e

theorem not_dependsOn_constant {value : Constant} {source : Leaf} :
    ¬ p.DependsOn (.constant value) source := nofun

/-- An operation that is no control merge depends on what its operands depend on, unless it is a
literal. -/
theorem dependsOn_node_iff {id : NodeId} {n : Node} (hn : p.node? id = some n)
    (hmerge : n.isMerge = false) {source : Leaf} :
    p.DependsOn (.node id) source ↔
      n.opcode ≠ .constant ∧ ∃ operand ∈ n.operands, p.DependsOn operand source := by
  constructor
  · intro h
    cases h with
    | merge hn' hmerge' =>
      obtain rfl := Option.some.inj (hn.symm.trans hn')
      simp [hmerge] at hmerge'
    | through hn' _ hop hmem hdep =>
      obtain rfl := Option.some.inj (hn.symm.trans hn')
      exact ⟨hop, _, hmem, hdep⟩
  · rintro ⟨hop, operand, hmem, hdep⟩
    exact .through hn hmerge hop hmem hdep

/-- There is a node behind every node operand that depends on something. -/
theorem DependsOn.exists_node {id : NodeId} {source : Leaf} (h : p.DependsOn (.node id) source) :
    ∃ n, p.node? id = some n := by
  cases h with
  | merge hn _ => exact ⟨_, hn⟩
  | through hn _ _ _ _ => exact ⟨_, hn⟩

/-- What an operand of an operation depends on, the operation depends on. -/
theorem dependsWithin_of_mem {id : NodeId} {n : Node} (hn : p.node? id = some n)
    (hmerge : n.isMerge = false) (hop : n.opcode ≠ .constant) {operand : Operand}
    (hmem : operand ∈ n.operands) : p.DependsWithin operand (.node id) :=
  fun _ hdep => .through hn hmerge hop hmem hdep

/-- One operation depends on no more than another when each of its operands depends on no more
than some operand of the other. -/
theorem dependsWithin_of_operands {x y : NodeId} {m n : Node} (hx : p.node? x = some m)
    (hm : m.isMerge = false) (hy : p.node? y = some n) (hn : n.isMerge = false)
    (hop : m.opcode ≠ .constant → n.opcode ≠ .constant)
    (h : ∀ u ∈ m.operands, ∃ v ∈ n.operands, p.DependsWithin u v) :
    p.DependsWithin (.node x) (.node y) := by
  intro source hdep
  obtain ⟨hop', u, hu, hdep⟩ := (dependsOn_node_iff hx hm).mp hdep
  obtain ⟨v, hv, hwithin⟩ := h u hu
  exact .through hy hn (hop hop') hv (hwithin source hdep)

end Program

/-- The operand that a leaf is. -/
def Leaf.operand : Leaf → Operand
  | .node id => .node id
  | .external id => .external id

namespace Fingerprint

/-- Some leaf of a fingerprint depends on an external or a control merge. -/
def DependsOn (p : Program) (f : Fingerprint) (source : Leaf) : Prop :=
  ∃ leaf ∈ f, p.DependsOn leaf.operand source

/-- No leaf of a fingerprint is a literal. -/
def WithoutLiterals (p : Program) (f : Fingerprint) : Prop :=
  ∀ id n, Leaf.node id ∈ f → p.node? id = some n → n.opcode ≠ .constant

theorem not_mem_empty (leaf : Leaf) : leaf ∉ empty := List.not_mem_nil

@[simp] theorem mem_singleton {leaf other : Leaf} : other ∈ singleton leaf ↔ other = leaf := by
  simp [singleton]

theorem dependsOn_singleton_iff {p : Program} {leaf source : Leaf} :
    (singleton leaf).DependsOn p source ↔ p.DependsOn leaf.operand source := by
  simp [DependsOn]

end Fingerprint

namespace LeafPolicy

theorem expands_eq_true_iff (policy : LeafPolicy) (n : Node) :
    policy.expands n = true ↔ n.opcode ≠ .constant ∧ policy.isLeaf n = false := by
  simp [expands]

/-- Slicing always stops at a control merge. -/
theorem isMerge_eq_false_of_isLeaf {policy : LeafPolicy} {n : Node}
    (h : policy.isLeaf n = false) : n.isMerge = false := by
  cases hop : n.opcode <;> simp [isLeaf, hop, Node.isMerge] at h ⊢

end LeafPolicy

namespace Program

variable {p : Program} {policy : LeafPolicy}

/-- Slicing goes on from an operation that is no leaf to its operands. -/
theorem mem_sliceNext_iff {x y : NodeId} : y ∈ p.sliceNext policy x ↔
    ∃ n, p.node? x = some n ∧ policy.expands n = true ∧ Operand.node y ∈ n.operands := by
  cases hx : p.node? x with
  | none => simp [sliceNext, hx]
  | some n => by_cases he : policy.expands n = true <;> simp [sliceNext, hx, he, Node.mem_nodeOperands_iff]

/-- A visited operation adds itself if it is a leaf, and its externals if it is expanded. -/
theorem mem_sliceYield_iff {id : NodeId} {leaf : Leaf} : leaf ∈ p.sliceYield policy id ↔
    ∃ n, p.node? id = some n ∧ n.opcode ≠ .constant ∧
      (policy.isLeaf n = true ∧ leaf = .node id ∨
        policy.isLeaf n = false ∧ ∃ e, Operand.external e ∈ n.operands ∧ .external e = leaf) := by
  have hoperand : ∀ (n : Node) (e : ExternalId),
      e ∈ n.externalOperands ↔ Operand.external e ∈ n.operands := by
    intro n e
    simp only [Node.externalOperands, List.mem_filterMap]
    constructor
    · rintro ⟨operand, hmem, hext⟩
      cases operand <;> simp [Operand.external?] at hext
      exact hext ▸ hmem
    · exact fun hmem => ⟨_, hmem, rfl⟩
  cases hn : p.node? id with
  | none => simp [sliceYield, hn]
  | some n =>
    by_cases hop : n.opcode = .constant
    · simp [sliceYield, hn, hop]
    · cases hleaf : policy.isLeaf n
      · simp [sliceYield, hn, hop, hleaf, hoperand]
      · simp [sliceYield, hn, hop, hleaf]

/-- Slicing from a root reaches a position. -/
def Visits (p : Program) (policy : LeafPolicy) (root id : NodeId) : Prop :=
  Reach.Within (p.sliceNext policy) p.nodeIds [root] id

theorem mem_backwardSlice_iff {root : NodeId} {leaf : Leaf} :
    leaf ∈ p.backwardSlice policy root ↔
      ∃ id, p.Visits policy root id ∧ leaf ∈ p.sliceYield policy id := by
  simp [backwardSlice, Visits, Reach.mem_gather_iff]

theorem withoutLiterals_backwardSlice (p : Program) (policy : LeafPolicy) (root : NodeId) :
    (p.backwardSlice policy root).WithoutLiterals p := by
  intro id n hmem hn
  obtain ⟨id', _, hyield⟩ := mem_backwardSlice_iff.mp hmem
  obtain ⟨n', hn', hop, ⟨_, heq⟩ | ⟨_, e, _, heq⟩⟩ := mem_sliceYield_iff.mp hyield
  · obtain rfl := Leaf.node.inj heq
    obtain rfl := Option.some.inj (hn.symm.trans hn')
    exact hop
  · cases heq

/-- The root depends on what a visited position depends on. -/
private theorem Visits.dependsWithin {root id : NodeId} (h : p.Visits policy root id) :
    p.DependsWithin (.node id) (.node root) := by
  induction h with
  | seed _ hroot =>
    obtain rfl := List.mem_singleton.mp hroot
    exact fun _ hdep => hdep
  | step _ _ hnext ih =>
    obtain ⟨n, hn, hexpands, hmem⟩ := mem_sliceNext_iff.mp hnext
    obtain ⟨hop, hleaf⟩ := (policy.expands_eq_true_iff n).mp hexpands
    have hmerge := LeafPolicy.isMerge_eq_false_of_isLeaf hleaf
    exact fun source hdep => ih source (dependsWithin_of_mem hn hmerge hop hmem source hdep)

/-- A visited position depends on what a leaf depends on that it adds. -/
private theorem dependsWithin_of_mem_sliceYield {id : NodeId} {leaf : Leaf}
    (h : leaf ∈ p.sliceYield policy id) : p.DependsWithin leaf.operand (.node id) := by
  obtain ⟨n, hn, hop, ⟨_, rfl⟩ | ⟨hleaf, e, hmem, rfl⟩⟩ := mem_sliceYield_iff.mp h
  · exact fun _ hdep => hdep
  · exact dependsWithin_of_mem hn (LeafPolicy.isMerge_eq_false_of_isLeaf hleaf) hop hmem

/-- What a visited position depends on, some leaf of the slice depends on. -/
private theorem Visits.dependsOn_backwardSlice {root id : NodeId} {source : Leaf}
    (hvisits : p.Visits policy root id) (h : p.DependsOn (.node id) source) :
    (p.backwardSlice policy root).DependsOn p source := by
  -- along the path to the source: it ends in the slice at its first leaf
  generalize hoperand : Operand.node id = operand at h
  induction h generalizing id with
  | external e => cases hoperand
  | @merge id' n hn hmerge =>
    obtain rfl := Operand.node.inj hoperand
    have hop : n.opcode = .controlMerge := by simpa [Node.isMerge] using hmerge
    have hleaf : policy.isLeaf n = true := by simp [LeafPolicy.isLeaf, hop]
    have hyield : Leaf.node id ∈ p.sliceYield policy id :=
      mem_sliceYield_iff.mpr ⟨n, hn, by simp [hop], .inl ⟨hleaf, rfl⟩⟩
    exact ⟨.node id, mem_backwardSlice_iff.mpr ⟨id, hvisits, hyield⟩, .merge hn hmerge⟩
  | @through id' n operand source hn hmerge hop hmem hdep ih =>
    obtain rfl := Operand.node.inj hoperand
    cases hleaf : policy.isLeaf n with
    | true =>
      have hyield : Leaf.node id ∈ p.sliceYield policy id :=
        mem_sliceYield_iff.mpr ⟨n, hn, hop, .inl ⟨hleaf, rfl⟩⟩
      exact ⟨.node id, mem_backwardSlice_iff.mpr ⟨id, hvisits, hyield⟩,
        .through hn hmerge hop hmem hdep⟩
    | false =>
      cases operand with
      | constant value => exact absurd hdep not_dependsOn_constant
      | external e =>
        have hyield : Leaf.external e ∈ p.sliceYield policy id :=
          mem_sliceYield_iff.mpr ⟨n, hn, hop, .inr ⟨hleaf, e, hmem, rfl⟩⟩
        exact ⟨.external e, mem_backwardSlice_iff.mpr ⟨id, hvisits, hyield⟩, hdep⟩
      | node next =>
        have hexists : next ∈ p.nodeIds := (p.mem_nodeIds_iff next).mpr hdep.exists_node
        have hnext : next ∈ p.sliceNext policy id :=
          mem_sliceNext_iff.mpr ⟨n, hn, (policy.expands_eq_true_iff n).mpr ⟨hop, hleaf⟩, hmem⟩
        exact ih (.step hvisits hexists hnext) rfl

/-- The leaves of a slice together depend on exactly what its root depends on. -/
theorem dependsOn_backwardSlice_iff {root : NodeId} {source : Leaf} :
    (p.backwardSlice policy root).DependsOn p source ↔ p.DependsOn (.node root) source := by
  constructor
  · rintro ⟨leaf, hmem, hdep⟩
    obtain ⟨id, hvisits, hyield⟩ := mem_backwardSlice_iff.mp hmem
    exact hvisits.dependsWithin source (dependsWithin_of_mem_sliceYield hyield source hdep)
  · intro h
    have hroot : root ∈ p.nodeIds := (p.mem_nodeIds_iff root).mpr h.exists_node
    exact Visits.dependsOn_backwardSlice (.seed hroot (List.mem_singleton.mpr rfl)) h

/-- The fingerprint of an operand. -/
def operandSlice (p : Program) (policy : LeafPolicy) : Operand → Fingerprint
  | .node id => p.backwardSlice policy id
  | .external id => .singleton (.external id)
  | .constant _ => .empty

theorem withoutLiterals_operandSlice (p : Program) (policy : LeafPolicy) (operand : Operand) :
    (p.operandSlice policy operand).WithoutLiterals p := by
  cases operand with
  | node id => exact p.withoutLiterals_backwardSlice policy id
  | external e =>
    intro id n hmem _
    cases Fingerprint.mem_singleton.mp hmem
  | constant value => exact fun id n hmem _ => absurd hmem (Fingerprint.not_mem_empty _)

theorem dependsOn_operandSlice_iff {operand : Operand} {source : Leaf} :
    (p.operandSlice policy operand).DependsOn p source ↔ p.DependsOn operand source := by
  cases operand with
  | node id => exact dependsOn_backwardSlice_iff
  | external e => exact Fingerprint.dependsOn_singleton_iff
  | constant value =>
    refine iff_of_false ?_ not_dependsOn_constant
    rintro ⟨leaf, hmem, _⟩
    exact Fingerprint.not_mem_empty leaf hmem

end Program

end GuardElision
