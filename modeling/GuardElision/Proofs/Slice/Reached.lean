import GuardElision.Program.Builder
import GuardElision.Proofs.Match.Requests
import GuardElision.Proofs.Ordered.Map
import GuardElision.Proofs.Reach
import GuardElision.Proofs.Slice.Dependencies

/-!
# Slices are the leaves that can be reached

A backward slice consists of exactly the leaves that can be reached from its root through
operations that are expanded, and of the externals of these operations. The graph of operands may
have cycles and references to nodes that do not exist, and an operation may have the same operand
several times: slicing comes to an end because only nodes lead anywhere and none of them is visited
twice, in whatever order positions are worked off.

The two leaf policies differ at address computations alone. Slicing by value therefore does what
slicing by address does up to the first address computation, and goes on behind it: the slice by
value is what the leaves of the slice by address have for slices by value.
-/

namespace GuardElision

/-- A fingerprint is determined by its leaves. -/
theorem Fingerprint.eq_of_mem_iff {f g : Fingerprint} (h : ∀ leaf, leaf ∈ f ↔ leaf ∈ g) : f = g := by
  obtain ⟨leaves, ascending⟩ := f
  obtain ⟨leaves', ascending'⟩ := g
  obtain rfl : leaves = leaves' := eq_of_pairwise_lt ascending ascending' h
  rfl

namespace Program

variable {p : Program} {policy : LeafPolicy}

/-- What slicing comes to: its root, and the nodes among the operands of an operation that it comes
to and expands, whether or not there are such nodes. -/
inductive Reaches (p : Program) (policy : LeafPolicy) (root : NodeId) : NodeId → Prop where
  | root : Reaches p policy root root
  | operand {id next : NodeId} {n : Node} : Reaches p policy root id → p.node? id = some n →
      policy.expands n = true → .node next ∈ n.operands → Reaches p policy root next

/-- Slicing visits the nodes that exist among those it comes to. -/
theorem visits_iff_reaches {root id : NodeId} :
    p.Visits policy root id ↔ p.Reaches policy root id ∧ ∃ n, p.node? id = some n := by
  constructor
  · intro h
    refine ⟨?_, (p.mem_nodeIds_iff id).mp h.mem_domain⟩
    induction h with
    | seed _ hroot =>
      obtain rfl := List.mem_singleton.mp hroot
      exact .root
    | step _ _ hnext ih =>
      obtain ⟨n, hn, hexpands, hmem⟩ := mem_sliceNext_iff.mp hnext
      exact .operand ih hn hexpands hmem
  · rintro ⟨h, hexists⟩
    have hdomain := (p.mem_nodeIds_iff id).mpr hexists
    induction h with
    | root => exact .seed hdomain (List.mem_singleton.mpr rfl)
    | @operand id next n _ hn hexpands hmem ih =>
      have hid := (p.mem_nodeIds_iff id).mpr ⟨n, hn⟩
      exact .step (ih ⟨n, hn⟩ hid) hdomain (mem_sliceNext_iff.mpr ⟨n, hn, hexpands, hmem⟩)

/-- Nothing is reached from where there is no node. -/
theorem sliceNext_of_not_mem {id : NodeId} (hid : id ∉ p.nodeIds) : p.sliceNext policy id = [] := by
  refine List.eq_nil_iff_forall_not_mem.mpr fun next hnext => hid ?_
  obtain ⟨n, hn, _⟩ := mem_sliceNext_iff.mp hnext
  exact (p.mem_nodeIds_iff id).mpr ⟨n, hn⟩

/-- A traversal can reach what slicing comes to. -/
theorem leads_iff_reaches {root id : NodeId} :
    Relation.ReflTransGen (Reach.Leads (p.sliceNext policy)) root id ↔
      p.Reaches policy root id := by
  constructor
  · intro h
    induction h with
    | refl => exact .root
    | tail _ hstep ih =>
      obtain ⟨n, hn, hexpands, hmem⟩ := mem_sliceNext_iff.mp hstep
      exact .operand ih hn hexpands hmem
  · intro h
    induction h with
    | root => exact .refl
    | operand _ hn hexpands hmem ih =>
      exact ih.tail (mem_sliceNext_iff.mpr ⟨_, hn, hexpands, hmem⟩)

/-- What the positions that a traversal has visited add is the slice. -/
theorem ofList_of_ends {root : NodeId} {visited : List NodeId}
    (h : Reach.Agenda.Ends (p.sliceNext policy) root visited) :
    .ofList (visited.flatMap (p.sliceYield policy)) = p.backwardSlice policy root := by
  refine Fingerprint.eq_of_mem_iff fun leaf => ?_
  rw [Fingerprint.mem_ofList, List.mem_flatMap, mem_backwardSlice_iff]
  refine exists_congr fun id => and_congr_left fun hyield => ?_
  rw [h.mem_visited_iff, leads_iff_reaches, visits_iff_reaches]
  obtain ⟨n, hn, _⟩ := mem_sliceYield_iff.mp hyield
  exact (and_iff_left ⟨n, hn⟩).symm

/-- The nodes of a slice are the leaves that slicing comes to. -/
theorem node_mem_backwardSlice_iff {root id : NodeId} :
    .node id ∈ p.backwardSlice policy root ↔ p.Reaches policy root id ∧
      ∃ n, p.node? id = some n ∧ n.opcode ≠ .constant ∧ policy.isLeaf n = true := by
  rw [mem_backwardSlice_iff]
  constructor
  · rintro ⟨_, hvisits, hyield⟩
    obtain ⟨n, hn, hop, ⟨hleaf, heq⟩ | ⟨_, _, _, heq⟩⟩ := mem_sliceYield_iff.mp hyield
    · obtain rfl := Leaf.node.inj heq
      exact ⟨(visits_iff_reaches.mp hvisits).1, n, hn, hop, hleaf⟩
    · cases heq
  · rintro ⟨hreaches, n, hn, hop, hleaf⟩
    exact ⟨id, visits_iff_reaches.mpr ⟨hreaches, n, hn⟩,
      mem_sliceYield_iff.mpr ⟨n, hn, hop, .inl ⟨hleaf, rfl⟩⟩⟩

/-- The externals of a slice are those of the operations that slicing comes to and expands. -/
theorem external_mem_backwardSlice_iff {root : NodeId} {e : ExternalId} :
    .external e ∈ p.backwardSlice policy root ↔ ∃ id n, p.Reaches policy root id ∧
      p.node? id = some n ∧ policy.expands n = true ∧ .external e ∈ n.operands := by
  rw [mem_backwardSlice_iff]
  constructor
  · rintro ⟨id, hvisits, hyield⟩
    obtain ⟨n, hn, hop, ⟨_, heq⟩ | ⟨hleaf, e', hmem, heq⟩⟩ := mem_sliceYield_iff.mp hyield
    · cases heq
    · obtain rfl := Leaf.external.inj heq
      exact ⟨id, n, (visits_iff_reaches.mp hvisits).1, hn,
        (policy.expands_eq_true_iff n).mpr ⟨hop, hleaf⟩, hmem⟩
  · rintro ⟨id, n, hreaches, hn, hexpands, hmem⟩
    obtain ⟨hop, hleaf⟩ := (policy.expands_eq_true_iff n).mp hexpands
    exact ⟨id, visits_iff_reaches.mpr ⟨hreaches, n, hn⟩,
      mem_sliceYield_iff.mpr ⟨n, hn, hop, .inr ⟨hleaf, e, hmem, rfl⟩⟩⟩

/-- What a session finds when it is asked for a slice after other requests. -/
def sliceAfter (p : Program) (maxDepth : Nat) (earlier : List Request) (policy : LeafPolicy)
    (root : NodeId) : Fingerprint :=
  (Compare.slice p policy root (Request.sessionAfter p maxDepth earlier)).1

/-- Whatever was requested before, the slice is that of its root. -/
theorem sliceAfter_eq (maxDepth : Nat) (earlier : List Request) (root : NodeId) :
    p.sliceAfter maxDepth earlier policy root = p.backwardSlice policy root :=
  (Compare.steady_slice policy root).value _ (Request.faithful_sessionAfter p maxDepth earlier)

/-- Whatever was requested before, a slice has for nodes the leaves, none of them a literal, that
can be reached from its root, and for externals those of the operations expanded on the way. No
traversal along the operands of expanded operations goes on for ever, some traversal from the root
comes to its end, and every one that does has visited exactly what can be reached, missing nodes
included, and gives the slice. -/
theorem mem_sliceAfter_iff (p : Program) (maxDepth : Nat) (earlier : List Request)
    (policy : LeafPolicy) (root : NodeId) :
    (∀ id, .node id ∈ p.sliceAfter maxDepth earlier policy root ↔ p.Reaches policy root id ∧
      ∃ n, p.node? id = some n ∧ n.opcode ≠ .constant ∧ policy.isLeaf n = true) ∧
    (∀ e, .external e ∈ p.sliceAfter maxDepth earlier policy root ↔
      ∃ id n, p.Reaches policy root id ∧ p.node? id = some n ∧ policy.expands n = true ∧
        .external e ∈ n.operands) ∧
    (WellFounded fun after agenda => Reach.Agenda.Round (p.sliceNext policy) agenda after) ∧
    (∃ visited, Reach.Agenda.Ends (p.sliceNext policy) root visited) ∧
    ∀ visited, Reach.Agenda.Ends (p.sliceNext policy) root visited →
      (∀ id, id ∈ visited ↔ p.Reaches policy root id) ∧
      .ofList (visited.flatMap (p.sliceYield policy)) =
        p.sliceAfter maxDepth earlier policy root := by
  have hdomain : ∀ id, id ∉ p.nodeIds → p.sliceNext policy id = [] := fun _ => sliceNext_of_not_mem
  rw [sliceAfter_eq]
  refine ⟨fun _ => node_mem_backwardSlice_iff, fun _ => external_mem_backwardSlice_iff,
    Reach.Agenda.wellFounded_round hdomain, Reach.Agenda.exists_ends hdomain root,
    fun visited hends => ⟨fun id => ?_, ofList_of_ends hends⟩⟩
  rw [hends.mem_visited_iff, leads_iff_reaches]

/-- Slicing comes from a root to all that it comes to from where it has come. -/
theorem Reaches.trans {root mid id : NodeId} (hmid : p.Reaches policy root mid)
    (h : p.Reaches policy mid id) : p.Reaches policy root id := by
  induction h with
  | root => exact hmid
  | operand _ hn hexpands hmem ih => exact .operand ih hn hexpands hmem

/-- What a slice from a reached node finds belongs to the slice. -/
theorem Reaches.mem_backwardSlice {root mid : NodeId} {leaf : Leaf}
    (hmid : p.Reaches policy root mid) (h : leaf ∈ p.backwardSlice policy mid) :
    leaf ∈ p.backwardSlice policy root := by
  cases leaf with
  | node id =>
    obtain ⟨hid, hleaf⟩ := node_mem_backwardSlice_iff.mp h
    exact node_mem_backwardSlice_iff.mpr ⟨hmid.trans hid, hleaf⟩
  | external e =>
    obtain ⟨id, n, hid, hexpanded⟩ := external_mem_backwardSlice_iff.mp h
    exact external_mem_backwardSlice_iff.mpr ⟨id, n, hmid.trans hid, hexpanded⟩

end Program

namespace LeafPolicy

/-- Slicing by value stops nowhere but where slicing by address stops. -/
theorem isLeaf_address_of_value {n : Node} (h : value.isLeaf n = true) :
    address.isLeaf n = true := by
  cases hop : n.opcode <;> simp [isLeaf, hop] at h ⊢ <;> exact h

/-- The policies agree about every operation but an address computation on other operations. -/
theorem isLeaf_address_eq_value {n : Node}
    (h : n.opcode = .addressComputation → n.nodeOperands = []) :
    address.isLeaf n = value.isLeaf n := by
  cases hop : n.opcode with
  | addressComputation => simp [isLeaf, hop, h hop]
  | _ => simp [isLeaf, hop]

theorem expands_value_of_address {n : Node} (h : address.expands n = true) :
    value.expands n = true := by
  obtain ⟨hop, hleaf⟩ := (address.expands_eq_true_iff n).mp h
  refine (value.expands_eq_true_iff n).mpr ⟨hop, Bool.eq_false_iff.mpr fun hvalue => ?_⟩
  simp [isLeaf_address_of_value hvalue] at hleaf

end LeafPolicy

namespace Program

variable {p : Program}

/-- Slicing by value comes to all that slicing by address comes to. -/
theorem Reaches.value_of_address {root id : NodeId} (h : p.Reaches .address root id) :
    p.Reaches .value root id := by
  induction h with
  | root => exact .root
  | operand _ hn hexpands hmem ih =>
    exact .operand ih hn (LeafPolicy.expands_value_of_address hexpands) hmem

/-- A path by value runs by address all the way, or up to a leaf by address and on from there. -/
theorem Reaches.address_or_behind {root id : NodeId} (h : p.Reaches .value root id) :
    p.Reaches .address root id ∨
      ∃ stop, .node stop ∈ p.backwardSlice .address root ∧ p.Reaches .value stop id := by
  induction h with
  | root => exact .inl .root
  | @operand id next n _ hn hexpands hmem ih =>
    rcases ih with hid | ⟨stop, hstop, hid⟩
    · obtain ⟨hop, _⟩ := (LeafPolicy.value.expands_eq_true_iff n).mp hexpands
      cases hleaf : LeafPolicy.address.isLeaf n with
      | false =>
        have hboth := (LeafPolicy.address.expands_eq_true_iff n).mpr ⟨hop, hleaf⟩
        exact .inl (.operand hid hn hboth hmem)
      | true =>
        -- the first address computation on the way
        have hstop := node_mem_backwardSlice_iff.mpr ⟨hid, n, hn, hop, hleaf⟩
        exact .inr ⟨id, hstop, .operand .root hn hexpands hmem⟩
    · exact .inr ⟨stop, hstop, .operand hid hn hexpands hmem⟩

/-- The slice by value is what the leaves of the slice by address have for slices by value. -/
theorem mem_backwardSlice_value_iff {root : NodeId} {leaf : Leaf} :
    leaf ∈ p.backwardSlice .value root ↔
      ∃ stop ∈ p.backwardSlice .address root, leaf ∈ p.operandSlice .value stop.operand := by
  constructor
  · intro h
    cases leaf with
    | node id =>
      obtain ⟨hid, n, hn, hop, hleaf⟩ := node_mem_backwardSlice_iff.mp h
      rcases hid.address_or_behind with hid | ⟨stop, hstop, hid⟩
      · have hstop := node_mem_backwardSlice_iff.mpr
          ⟨hid, n, hn, hop, LeafPolicy.isLeaf_address_of_value hleaf⟩
        exact ⟨.node id, hstop, node_mem_backwardSlice_iff.mpr ⟨.root, n, hn, hop, hleaf⟩⟩
      · exact ⟨.node stop, hstop, node_mem_backwardSlice_iff.mpr ⟨hid, n, hn, hop, hleaf⟩⟩
    | external e =>
      obtain ⟨id, n, hid, hn, hexpands, hmem⟩ := external_mem_backwardSlice_iff.mp h
      rcases hid.address_or_behind with hid | ⟨stop, hstop, hid⟩
      · obtain ⟨hop, _⟩ := (LeafPolicy.value.expands_eq_true_iff n).mp hexpands
        cases hleaf : LeafPolicy.address.isLeaf n with
        | false =>
          have hboth := (LeafPolicy.address.expands_eq_true_iff n).mpr ⟨hop, hleaf⟩
          exact ⟨.external e, external_mem_backwardSlice_iff.mpr ⟨id, n, hid, hn, hboth, hmem⟩,
            Fingerprint.mem_singleton.mpr rfl⟩
        | true =>
          exact ⟨.node id, node_mem_backwardSlice_iff.mpr ⟨hid, n, hn, hop, hleaf⟩,
            external_mem_backwardSlice_iff.mpr ⟨id, n, .root, hn, hexpands, hmem⟩⟩
      · exact ⟨.node stop, hstop,
          external_mem_backwardSlice_iff.mpr ⟨id, n, hid, hn, hexpands, hmem⟩⟩
  · rintro ⟨stop, hstop, h⟩
    cases stop with
    | node id =>
      exact (node_mem_backwardSlice_iff.mp hstop).1.value_of_address.mem_backwardSlice h
    | external e =>
      obtain rfl := Fingerprint.mem_singleton.mp h
      obtain ⟨id, n, hid, hn, hexpands, hmem⟩ := external_mem_backwardSlice_iff.mp hstop
      exact external_mem_backwardSlice_iff.mpr ⟨id, n, hid.value_of_address, hn,
        LeafPolicy.expands_value_of_address hexpands, hmem⟩

/-- Where no address computation depends on other operations, both policies slice alike. -/
theorem backwardSlice_value_eq_address
    (h : ∀ id n, p.node? id = some n → n.opcode = .addressComputation → n.nodeOperands = [])
    (root : NodeId) : p.backwardSlice .value root = p.backwardSlice .address root := by
  have hnext : p.sliceNext .value = p.sliceNext .address := by
    funext id
    cases hn : p.node? id with
    | none => simp [sliceNext, hn]
    | some n =>
      simp [sliceNext, hn, LeafPolicy.expands, LeafPolicy.isLeaf_address_eq_value (h id n hn)]
  have hyield : p.sliceYield .value = p.sliceYield .address := by
    funext id
    cases hn : p.node? id with
    | none => simp [sliceYield, hn]
    | some n => simp [sliceYield, hn, LeafPolicy.isLeaf_address_eq_value (h id n hn)]
  rw [backwardSlice, backwardSlice, hnext, hyield]

/-- Whatever was requested before each of the slices, the slice by value is the union of the
externals of the slice by address and of the slices by value of its operations; and where no
address computation depends on other operations, the two slices are equal. -/
theorem sliceAfter_value (p : Program) (maxDepth : Nat) (earlier later between : List Request)
    (root : NodeId) :
    (∀ leaf, leaf ∈ p.sliceAfter maxDepth earlier .value root ↔
      ∃ stop ∈ p.sliceAfter maxDepth later .address root,
        match stop with
        | .external _ => leaf = stop
        | .node id => leaf ∈ p.sliceAfter maxDepth between .value id) ∧
    ((∀ id n, p.node? id = some n → n.opcode = .addressComputation → n.nodeOperands = []) →
      p.sliceAfter maxDepth earlier .value root = p.sliceAfter maxDepth later .address root) := by
  simp only [sliceAfter_eq]
  refine ⟨fun leaf => mem_backwardSlice_value_iff.trans ?_,
    fun h => backwardSlice_value_eq_address h root⟩
  refine exists_congr fun stop => and_congr_right fun _ => ?_
  cases stop with
  | node id => exact Iff.rfl
  | external e => exact Fingerprint.mem_singleton

open Build in
/-- Two operations that depend on each other, and on an address without operations in it. -/
def feedback : Program :=
  let steps : Build Unit := do
    let main ← procedure "main"
    let body ← block main
    let array ← external "array"
    let step ← external "step"
    let start ← operation body .addressComputation [.external array, .constant (.int 8)]
    let sum ← operation body (.generic "add") [.node ⟨2⟩, .node start]
    let _ ← operation body (.generic "mul") [.node sum, .external step, .node ⟨7⟩]
  (steps.run.run { name := "feedback" }).2

/-- Slicing goes around the cycle and past the node that does not exist, and both policies find the
address and the external, after other requests. -/
theorem feedback_sliceAfter_value :
    feedback.sliceAfter 32 [] .value ⟨1⟩ =
      feedback.sliceAfter 32 [.slice ⟨2⟩ .value] .address ⟨1⟩ ∧
    (feedback.sliceAfter 32 [] .value ⟨1⟩).leaves = [.node ⟨0⟩, .external ⟨1⟩] := by
  have hnone : ∀ id n, feedback.node? id = some n → n.opcode = .addressComputation →
      n.nodeOperands = [] := by
    refine (feedback.forall_node_iff _).mpr ?_
    decide +kernel
  exact ⟨(sliceAfter_value feedback 32 [] [.slice ⟨2⟩ .value] [] ⟨1⟩).2 hnone, by decide +kernel⟩

end Program

end GuardElision
