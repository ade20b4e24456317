import GuardElision.Proofs.Reach
import GuardElision.Slice.Cone
import Mathlib.Algebra.BigOperators.Group.List.Lemmas
import Mathlib.Algebra.GroupWithZero.Nat
import Mathlib.Algebra.Order.Group.Nat
import Mathlib.Data.List.Nodup
import Mathlib.Data.List.Pairwise

/-!
# What a value needs

A value needs the operations that can be reached from it along operands without passing behind a
control merge. Its cone lists exactly those of them that exist, by strictly ascending position.
The frontier is looked for by a traversal of its own, which leaves visited operations out already
when it makes operands pending and keeps the control merges as it visits them. It is a traversal
all the same (`exists_rounds_frontierFrom`), so it has visited what the root needs when it comes to
its end, and meets exactly the control merges of the cone, whatever cycles and missing nodes there
are.
-/

namespace GuardElision

namespace Program

variable {p : Program}

/-- Positions are listed by strictly ascending index. -/
theorem pairwise_nodeIds (p : Program) : p.nodeIds.Pairwise (· < ·) := by
  rw [nodeIds, List.pairwise_map]
  refine List.pairwise_lt_range.imp_of_mem fun {i j} hi hj hlt => UInt32.lt_iff_toNat_lt.mpr ?_
  have hbound : ∀ k ∈ List.range (min p.nodes.size UInt32.size), k < UInt32.size :=
    fun k hk => Nat.lt_of_lt_of_le (List.mem_range.mp hk) (Nat.min_le_right _ _)
  rwa [UInt32.toNat_ofNat_of_lt' (hbound i hi), UInt32.toNat_ofNat_of_lt' (hbound j hj)]

theorem nodup_nodeIds (p : Program) : p.nodeIds.Nodup :=
  p.pairwise_nodeIds.imp fun {a b} (hlt : a.index < b.index) (heq : a = b) =>
    UInt32.lt_irrefl b.index (heq ▸ hlt)

/-- An operation that is no control merge leads to the operations among its operands. -/
theorem mem_coneNext_iff {id next : NodeId} : next ∈ p.coneNext id ↔
    ∃ n, p.node? id = some n ∧ n.isMerge = false ∧ .node next ∈ n.operands := by
  cases hid : p.node? id with
  | none => simp [coneNext, hid]
  | some n => cases hmerge : n.isMerge <;> simp [coneNext, hid, hmerge, Node.mem_nodeOperands_iff]

theorem isMergeAt_iff {id : NodeId} :
    p.isMergeAt id = true ↔ ∃ n, p.node? id = some n ∧ n.isMerge = true := by
  cases hid : p.node? id <;> simp [isMergeAt, hid]

/-- Nothing is reached from where there is no node. -/
theorem coneNext_of_not_mem {id : NodeId} (hid : id ∉ p.nodeIds) : p.coneNext id = [] := by
  refine List.eq_nil_iff_forall_not_mem.mpr fun next hnext => hid ?_
  obtain ⟨n, hn, _⟩ := mem_coneNext_iff.mp hnext
  exact (p.mem_nodeIds_iff id).mpr ⟨n, hn⟩

/-- What a value needs: itself, and the operations among the operands of what it needs, other than
a control merge, whether or not there are such operations. -/
inductive Needs (p : Program) (root : NodeId) : NodeId → Prop where
  | root : Needs p root root
  | operand {id next : NodeId} {n : Node} : Needs p root id → p.node? id = some n →
      n.isMerge = false → .node next ∈ n.operands → Needs p root next

/-- A traversal can reach what its root needs. -/
theorem leads_iff_needs {root id : NodeId} :
    Relation.ReflTransGen (Reach.Leads p.coneNext) root id ↔ p.Needs root id := by
  constructor
  · intro h
    induction h with
    | refl => exact .root
    | tail _ hstep ih =>
      obtain ⟨n, hn, hmerge, hmem⟩ := mem_coneNext_iff.mp hstep
      exact .operand ih hn hmerge hmem
  · intro h
    induction h with
    | root => exact .refl
    | operand _ hn hmerge hmem ih => exact ih.tail (mem_coneNext_iff.mpr ⟨_, hn, hmerge, hmem⟩)

theorem within_iff_needs {root id : NodeId} :
    Reach.Within p.coneNext p.nodeIds [root] id ↔
      p.Needs root id ∧ ∃ n, p.node? id = some n := by
  constructor
  · intro h
    refine ⟨?_, (p.mem_nodeIds_iff id).mp h.mem_domain⟩
    induction h with
    | seed _ hroot =>
      obtain rfl := List.mem_singleton.mp hroot
      exact .root
    | step _ _ hnext ih =>
      obtain ⟨n, hn, hmerge, hmem⟩ := mem_coneNext_iff.mp hnext
      exact .operand ih hn hmerge hmem
  · rintro ⟨h, hexists⟩
    have hdomain := (p.mem_nodeIds_iff id).mpr hexists
    induction h with
    | root => exact .seed hdomain (List.mem_singleton.mpr rfl)
    | @operand id next n _ hn hmerge hmem ih =>
      have hid := (p.mem_nodeIds_iff id).mpr ⟨n, hn⟩
      exact .step (ih ⟨n, hn⟩ hid) hdomain (mem_coneNext_iff.mpr ⟨n, hn, hmerge, hmem⟩)

theorem mem_operandCone_iff_within {root id : NodeId} :
    id ∈ p.operandCone root ↔ Reach.Within p.coneNext p.nodeIds [root] id := by
  rw [operandCone, List.mem_filter, List.contains_iff_mem, Reach.mem_gather_iff]
  exact and_iff_right_of_imp Reach.Within.mem_domain

/-- The cone holds the nodes that exist among what its root needs. -/
theorem mem_operandCone_iff {root id : NodeId} :
    id ∈ p.operandCone root ↔ p.Needs root id ∧ ∃ n, p.node? id = some n :=
  mem_operandCone_iff_within.trans within_iff_needs

/-- The nodes that exist among those that a traversal has visited are the cone. -/
theorem operandCone_eq_of_ends {root : NodeId} {visited : List NodeId}
    (h : Reach.Agenda.Ends p.coneNext root visited) :
    p.nodeIds.filter visited.contains = p.operandCone root := by
  rw [operandCone]
  refine List.filter_congr fun id hid => Bool.eq_iff_iff.mpr ?_
  rw [List.contains_iff_mem, List.contains_iff_mem, h.mem_visited_iff, leads_iff_needs,
    Reach.mem_gather_iff, within_iff_needs]
  exact (and_iff_left ((p.mem_nodeIds_iff id).mp hid)).symm

theorem pairwise_operandCone (p : Program) (root : NodeId) :
    (p.operandCone root).Pairwise (· < ·) :=
  p.pairwise_nodeIds.sublist List.filter_sublist

section Frontier

/-- A list of the nodes that exist and were not visited yet, each once. -/
structure Unvisited (p : Program) (visited domain : List NodeId) : Prop where
  nodup : domain.Nodup
  mem_iff : ∀ id, id ∈ domain ↔ id ∈ p.nodeIds ∧ id ∉ visited

theorem unvisited_nil (p : Program) : p.Unvisited [] p.nodeIds :=
  ⟨p.nodup_nodeIds, fun _ => by simp⟩

theorem Unvisited.visit {visited domain : List NodeId} (h : p.Unvisited visited domain)
    (id : NodeId) : p.Unvisited (id :: visited) (domain.erase id) := by
  refine ⟨h.nodup.erase id, fun other => ?_⟩
  rw [h.nodup.mem_erase_iff, h.mem_iff, List.mem_cons, not_or]
  exact and_left_comm

/-- How many operations can become pending behind the nodes of a list. -/
def operandCount (p : Program) (domain : List NodeId) : Nat :=
  (domain.map fun id => (p.coneNext id).length).sum

theorem frontierRounds_eq : p.frontierRounds = p.operandCount p.nodeIds + 1 := by
  rw [frontierRounds, List.length_flatMap, operandCount]

/-- A visit takes the operands of the visited operation out of the count. -/
theorem operandCount_erase {visited domain : List NodeId} (h : p.Unvisited visited domain)
    {id : NodeId} (hid : id ∉ visited) :
    (p.coneNext id).length + p.operandCount (domain.erase id) = p.operandCount domain := by
  by_cases hmem : id ∈ domain
  · exact List.sum_map_erase (fun id => (p.coneNext id).length) hmem
  · have hmissing : id ∉ p.nodeIds := fun hn => hmem ((h.mem_iff id).mpr ⟨hn, hid⟩)
    rw [coneNext_of_not_mem hmissing, List.erase_of_not_mem hmem, List.length_nil, Nat.zero_add]

/-- What was visited before is dropped. -/
theorem frontierFrom_of_mem {visited pending : List NodeId} {id : NodeId} (hid : id ∈ visited)
    (rounds : Nat) : p.frontierFrom (rounds + 1) visited (id :: pending) =
      p.frontierFrom rounds visited pending := by
  rw [frontierFrom, if_pos (List.contains_iff_mem.mpr hid)]

/-- The operations that a visit makes pending. -/
def fresh (p : Program) (visited : List NodeId) (id : NodeId) : List NodeId :=
  (p.coneNext id).filter fun operand => !(id :: visited).contains operand

/-- A visited control merge is kept, and what a visited operation leads to becomes pending. -/
theorem frontierFrom_of_not_mem {visited pending : List NodeId} {id : NodeId}
    (hid : id ∉ visited) (rounds : Nat) : p.frontierFrom (rounds + 1) visited (id :: pending) =
      (if p.isMergeAt id then [id] else []) ++
        p.frontierFrom rounds (id :: visited) (p.fresh visited id ++ pending) := by
  rw [frontierFrom, if_neg (fun h => hid (List.contains_iff_mem.mp h)), isMergeAt, fresh, coneNext]
  cases p.node? id with
  | none => rfl
  | some n => cases hmerge : n.isMerge <;> simp [hmerge]

/-- Visiting an operation leaves fewer rounds to go than there were. -/
theorem rounds_after_visit {visited pending domain : List NodeId} {rounds : Nat}
    (h : p.Unvisited visited domain) {id : NodeId} (hid : id ∉ visited)
    (hrounds : (id :: pending).length + p.operandCount domain ≤ rounds + 1) :
    (p.fresh visited id ++ pending).length + p.operandCount (domain.erase id) ≤ rounds := by
  have hcount := operandCount_erase h hid
  have hfresh : (p.fresh visited id).length ≤ (p.coneNext id).length := List.length_filter_le _ _
  simp only [List.length_cons, List.length_append] at hrounds ⊢
  omega

/-- A visit that makes pending what was not visited is a round. -/
theorem round_of_not_mem {visited : List NodeId} {id : NodeId} (hid : id ∉ visited)
    (pending : List NodeId) : Reach.Agenda.Round p.coneNext ⟨visited, id :: pending⟩
      ⟨id :: visited, p.fresh visited id ++ pending⟩ := by
  have hsublist : (p.fresh visited id).Sublist (p.coneNext id) := List.filter_sublist
  refine .visit (.refl _) hid hsublist (fun next hnext => ?_) (.refl _)
  by_cases hvisited : next ∈ id :: visited
  · exact .inl hvisited
  · exact .inr (List.mem_filter.mpr ⟨hnext, by simpa using hvisited⟩)

/-- The search for a frontier is a traversal that comes to its end, and finds the control merges in
the order in which they are visited. -/
theorem exists_rounds_frontierFrom {rounds : Nat} {visited pending domain : List NodeId}
    (h : p.Unvisited visited domain)
    (hrounds : pending.length + p.operandCount domain ≤ rounds) :
    ∃ found : List NodeId, Relation.ReflTransGen (Reach.Agenda.Round p.coneNext) ⟨visited, pending⟩
        ⟨found.reverse ++ visited, []⟩ ∧
      p.frontierFrom rounds visited pending = found.filter p.isMergeAt := by
  induction rounds generalizing visited pending domain with
  | zero =>
    obtain rfl : pending = [] := List.length_eq_zero_iff.mp (by omega)
    exact ⟨[], .refl, rfl⟩
  | succ rounds ih =>
    cases pending with
    | nil => exact ⟨[], .refl, rfl⟩
    | cons id pending =>
      by_cases hid : id ∈ visited
      · rw [frontierFrom_of_mem hid]
        have hshorter : pending.length + p.operandCount domain ≤ rounds := by
          rw [List.length_cons] at hrounds
          omega
        obtain ⟨found, hleft, hfound⟩ := ih h hshorter
        exact ⟨found, .head (.drop (.refl _) hid) hleft, hfound⟩
      · rw [frontierFrom_of_not_mem hid]
        obtain ⟨found, hleft, hfound⟩ := ih (h.visit id) (rounds_after_visit h hid hrounds)
        refine ⟨id :: found, .head (round_of_not_mem hid pending) ?_, ?_⟩
        · rw [List.reverse_cons, List.append_assoc]
          exact hleft
        · rw [hfound, List.filter_cons]
          cases p.isMergeAt id <;> rfl

/-- From a root, the search for a frontier visits what the root needs. -/
theorem exists_ends_frontierFrom (p : Program) (root : NodeId) :
    ∃ visited, Reach.Agenda.Ends p.coneNext root visited ∧
      p.frontierFrom p.frontierRounds [] [root] = visited.reverse.filter p.isMergeAt := by
  have hpending : [root].length + p.operandCount p.nodeIds ≤ p.frontierRounds := by
    rw [frontierRounds_eq, List.length_singleton, Nat.add_comm]
  obtain ⟨found, hrounds, hfound⟩ := exists_rounds_frontierFrom p.unvisited_nil hpending
  rw [List.append_nil] at hrounds
  exact ⟨found.reverse, hrounds, by rw [List.reverse_reverse, hfound]⟩

/-- When nothing is left pending, further rounds find nothing. -/
theorem frontierFrom_succ {rounds : Nat} {visited pending domain : List NodeId}
    (h : p.Unvisited visited domain)
    (hrounds : pending.length + p.operandCount domain ≤ rounds) :
    p.frontierFrom (rounds + 1) visited pending = p.frontierFrom rounds visited pending := by
  induction rounds generalizing visited pending domain with
  | zero =>
    obtain rfl : pending = [] := List.length_eq_zero_iff.mp (by omega)
    rfl
  | succ rounds ih =>
    cases pending with
    | nil => rfl
    | cons id pending =>
      by_cases hid : id ∈ visited
      · rw [frontierFrom_of_mem hid, frontierFrom_of_mem hid]
        exact ih h (by simp only [List.length_cons] at hrounds; omega)
      · rw [frontierFrom_of_not_mem hid, frontierFrom_of_not_mem hid,
          ih (h.visit id) (rounds_after_visit h hid hrounds)]

/-- One round for the start and one for each operand of each operation are enough. -/
theorem frontierFrom_eq_of_le (p : Program) (root : NodeId) {rounds : Nat}
    (hrounds : p.frontierRounds ≤ rounds) :
    p.frontierFrom rounds [] [root] = p.frontierFrom p.frontierRounds [] [root] := by
  induction rounds, hrounds using Nat.le_induction with
  | base => rfl
  | succ rounds hle ih =>
    have hpending : [root].length + p.operandCount p.nodeIds ≤ rounds := by
      rw [frontierRounds_eq] at hle
      rw [List.length_singleton]
      omega
    rw [frontierFrom_succ p.unvisited_nil hpending, ih]

/-- The frontier of a value consists of the control merges of its cone. -/
theorem mergeFrontier_node (p : Program) (root : NodeId) :
    p.mergeFrontier (.node root) = (p.operandCone root).filter p.isMergeAt := by
  obtain ⟨visited, hends, hfound⟩ := p.exists_ends_frontierFrom root
  rw [mergeFrontier, ← operandCone_eq_of_ends hends, List.filter_filter]
  refine List.filter_congr fun id _ => Bool.eq_iff_iff.mpr ?_
  rw [hfound, List.contains_iff_mem, List.mem_filter, List.mem_reverse, Bool.and_eq_true,
    List.contains_iff_mem, and_comm]

end Frontier

end Program

end GuardElision
