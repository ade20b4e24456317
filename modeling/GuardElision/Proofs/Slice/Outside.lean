import GuardElision.Proofs.Slice.Cone
import GuardElision.Proofs.Slice.Dependencies

/-!
# What slices and cones do not see

Slices and cones are walks along operands. A node that no operand points at is met by such a
walk only if the walk starts there. So when two programs differ at such nodes alone, every walk
that starts anywhere else visits the same positions in the same order in both, and finds the
same there.
-/

namespace GuardElision

namespace Reach

variable {α : Type} {next next' : α → List α} {seeds : List α}

/-- A walk stays where its steps stay. -/
theorem Within.of_closed (seen : α → Prop) {domain : List α} {x : α}
    (hstep : ∀ x, seen x → ∀ y ∈ next x, seen y) (hseeds : ∀ x ∈ seeds, seen x)
    (h : Within next domain seeds x) : seen x := by
  induction h with
  | seed _ hseed => exact hseeds _ hseed
  | step _ _ hnext ih => exact hstep _ ih _ hnext

variable [DecidableEq α] {seen : α → Prop}

private theorem gatherFrom_congr (hnext : ∀ x, seen x → next' x = next x)
    (hstep : ∀ x, seen x → ∀ y ∈ next x, seen y) (rounds : Nat) (unvisited : List α)
    {pending : List α} (hpending : ∀ x ∈ pending, seen x) :
    gatherFrom next' rounds unvisited pending = gatherFrom next rounds unvisited pending := by
  induction rounds generalizing unvisited pending with
  | zero => rfl
  | succ rounds ih =>
    have hsub := List.dropWhile_sublist (fun x => !unvisited.contains x) (l := pending)
    rw [gatherFrom, gatherFrom]
    cases hdrop : pending.dropWhile fun x => !unvisited.contains x with
    | nil => rfl
    | cons x rest =>
      rw [hdrop] at hsub
      have hx : seen x := hpending x (hsub.mem List.mem_cons_self)
      have hrest : ∀ y ∈ next x ++ rest, seen y := by
        intro y hy
        rcases List.mem_append.mp hy with hy | hy
        · exact hstep x hx y hy
        · exact hpending y (hsub.mem (List.mem_cons_of_mem x hy))
      dsimp only
      rw [hnext x hx, ih _ hrest]

/-- Steps that are the same wherever a walk can get gather the same elements in the same order. -/
theorem gather_congr (hnext : ∀ x, seen x → next' x = next x)
    (hstep : ∀ x, seen x → ∀ y ∈ next x, seen y) (domain : List α)
    (hseeds : ∀ x ∈ seeds, seen x) : gather next' domain seeds = gather next domain seeds :=
  gatherFrom_congr hnext hstep domain.length domain hseeds

end Reach

namespace Operand

/-- An operand points at no hidden node. -/
def Avoids (hidden : NodeId → Prop) (operand : Operand) : Prop :=
  ∀ id, operand = .node id → ¬ hidden id

end Operand

namespace Fingerprint

/-- No leaf is a hidden node. -/
def Avoids (hidden : NodeId → Prop) (f : Fingerprint) : Prop :=
  ∀ leaf ∈ f, leaf.operand.Avoids hidden

variable {hidden : NodeId → Prop}

theorem avoids_empty : empty.Avoids hidden :=
  fun leaf h => absurd h (not_mem_empty leaf)

theorem avoids_singleton {leaf : Leaf} (h : leaf.operand.Avoids hidden) :
    (singleton leaf).Avoids hidden := by
  intro other hother
  obtain rfl := mem_singleton.mp hother
  exact h

theorem Avoids.union {f g : Fingerprint} (hf : f.Avoids hidden) (hg : g.Avoids hidden) :
    (f.union g).Avoids hidden := by
  intro leaf hleaf
  rcases mem_union.mp hleaf with h | h
  · exact hg leaf h
  · exact hf leaf h

theorem leaves_of_singleNode? {f : Fingerprint} {id : NodeId} (h : f.singleNode? = some id) :
    f.leaves = [.node id] := by
  unfold singleNode? at h
  split at h
  · next leaf hleaves =>
    cases leaf <;> cases h
    exact hleaves
  · cases h

theorem mem_of_singleNode? {f : Fingerprint} {id : NodeId} (h : f.singleNode? = some id) :
    Leaf.node id ∈ f := by
  have hmem : Leaf.node id ∈ f.leaves := by simp [leaves_of_singleNode? h]
  exact hmem

end Fingerprint

namespace Program

/-- Two programs are the same but for some nodes that no operand points at. -/
structure SameOutside (hidden : NodeId → Prop) (p q : Program) : Prop where
  positions : q.nodeIds = p.nodeIds
  node?_eq : ∀ id, ¬ hidden id → q.node? id = p.node? id
  unseen : ∀ id n, p.node? id = some n → ∀ operand ∈ n.operands, operand.Avoids hidden

namespace SameOutside

variable {hidden : NodeId → Prop} {p q : Program} (h : SameOutside hidden p q)
  {policy : LeafPolicy}

include h

theorem condition?_eq {branch : NodeId} (hbranch : ¬ hidden branch) :
    q.condition? branch = p.condition? branch := by
  rw [condition?, condition?, h.node?_eq branch hbranch]

/-- What a branch tests is no hidden node. -/
theorem avoids_condition {branch : NodeId} {condition : Operand}
    (hcondition : p.condition? branch = some condition) : condition.Avoids hidden := by
  obtain ⟨n, hn, htest⟩ := Option.bind_eq_some_iff.mp hcondition
  rw [Node.condition?, Option.ite_none_right_eq_some] at htest
  exact h.unseen branch n hn condition (List.mem_of_mem_head? htest.2)

theorem sliceNext_eq {id : NodeId} (hid : ¬ hidden id) :
    q.sliceNext policy id = p.sliceNext policy id := by
  rw [sliceNext, sliceNext, h.node?_eq id hid]

theorem not_hidden_sliceNext (id : NodeId) : ∀ next ∈ p.sliceNext policy id, ¬ hidden next := by
  intro next hnext
  obtain ⟨n, hn, _, hmem⟩ := mem_sliceNext_iff.mp hnext
  exact h.unseen id n hn _ hmem next rfl

/-- A slice from a node that is not hidden visits no hidden node. -/
theorem not_hidden_of_visits {root id : NodeId} (hroot : ¬ hidden root)
    (hvisits : p.Visits policy root id) : ¬ hidden id :=
  hvisits.of_closed (fun id => ¬ hidden id) (fun id _ => h.not_hidden_sliceNext id)
    (List.forall_mem_singleton.mpr hroot)

/-- The slice of a node that is not hidden is the same in both programs. -/
theorem backwardSlice_eq {root : NodeId} (hroot : ¬ hidden root) :
    q.backwardSlice policy root = p.backwardSlice policy root := by
  have hvisited : Reach.gather (q.sliceNext policy) q.nodeIds [root] =
      Reach.gather (p.sliceNext policy) p.nodeIds [root] := by
    rw [h.positions]
    exact Reach.gather_congr (fun _ hid => h.sliceNext_eq hid)
      (fun id _ => h.not_hidden_sliceNext id) p.nodeIds (List.forall_mem_singleton.mpr hroot)
  have hyield : ∀ id ∈ Reach.gather (p.sliceNext policy) p.nodeIds [root],
      q.sliceYield policy id = p.sliceYield policy id := by
    intro id hid
    have hvisits : p.Visits policy root id := (Reach.mem_gather_iff _ _ _ id).mp hid
    rw [sliceYield, sliceYield, h.node?_eq id (h.not_hidden_of_visits hroot hvisits)]
  rw [backwardSlice, backwardSlice, hvisited, List.flatMap_def, List.map_congr_left hyield,
    List.flatMap_def]

theorem avoids_backwardSlice {root : NodeId} (hroot : ¬ hidden root) :
    (p.backwardSlice policy root).Avoids hidden := by
  intro leaf hleaf id hid
  obtain ⟨visited, hvisits, hyield⟩ := mem_backwardSlice_iff.mp hleaf
  obtain ⟨n, _, _, ⟨_, rfl⟩ | ⟨_, e, _, rfl⟩⟩ := mem_sliceYield_iff.mp hyield
  · obtain rfl := Operand.node.inj hid
    exact h.not_hidden_of_visits hroot hvisits
  · cases hid

theorem avoids_operandSlice {operand : Operand} (hoperand : operand.Avoids hidden) :
    (p.operandSlice policy operand).Avoids hidden := by
  cases operand with
  | node id => exact h.avoids_backwardSlice (hoperand id rfl)
  | external e => exact Fingerprint.avoids_singleton hoperand
  | constant value => exact Fingerprint.avoids_empty

theorem not_hidden_coneNext (id : NodeId) : ∀ next ∈ p.coneNext id, ¬ hidden next := by
  intro next hnext
  obtain ⟨n, hn, _, hmem⟩ := mem_coneNext_iff.mp hnext
  exact h.unseen id n hn _ hmem next rfl

/-- The cone of a node that is not hidden is the same in both programs. -/
theorem operandCone_eq {root : NodeId} (hroot : ¬ hidden root) :
    q.operandCone root = p.operandCone root := by
  have hnext : ∀ id, ¬ hidden id → q.coneNext id = p.coneNext id := by
    intro id hid
    rw [coneNext, coneNext, h.node?_eq id hid]
  rw [operandCone, operandCone, h.positions, Reach.gather_congr hnext
    (fun id _ => h.not_hidden_coneNext id) p.nodeIds (List.forall_mem_singleton.mpr hroot)]

theorem not_hidden_of_mem_operandCone {root id : NodeId} (hroot : ¬ hidden root)
    (hid : id ∈ p.operandCone root) : ¬ hidden id := by
  exact (mem_operandCone_iff_within.mp hid).of_closed (fun id => ¬ hidden id) (fun id _ => h.not_hidden_coneNext id)
    (List.forall_mem_singleton.mpr hroot)

theorem not_hidden_of_mem_mergeFrontier {operand : Operand} {id : NodeId}
    (hoperand : operand.Avoids hidden) (hid : id ∈ p.mergeFrontier operand) : ¬ hidden id := by
  cases operand with
  | node root =>
    rw [mergeFrontier_node] at hid
    exact h.not_hidden_of_mem_operandCone (hoperand root rfl) (List.mem_filter.mp hid).1
  | external e => cases hid
  | constant value => cases hid

/-- An operand that is no hidden node depends on the same control merges in both programs. -/
theorem mergeFrontier_eq {operand : Operand} (hoperand : operand.Avoids hidden) :
    q.mergeFrontier operand = p.mergeFrontier operand := by
  cases operand with
  | node root =>
    have hroot := hoperand root rfl
    rw [mergeFrontier_node, mergeFrontier_node, h.operandCone_eq hroot]
    refine List.filter_congr fun id hid => ?_
    rw [isMergeAt, isMergeAt, h.node?_eq id (h.not_hidden_of_mem_operandCone hroot hid)]
  | external e => rfl
  | constant value => rfl

end SameOutside

end Program

end GuardElision
