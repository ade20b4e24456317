import GuardElision.Match.Shape
import GuardElision.Proofs.Slice.Cone
import GuardElision.Proofs.Slice.Reached

/-!
# Induction guards and dependency cones

An induction guard is recognised without comparing it with anything, so it matters that the search
for control merges behind its condition misses none. What it meets are the control merges of the
condition's cone: `cone_frontier_and_guards` says so together with what the cone is, and what a
guard is in these terms.
-/

namespace GuardElision

namespace Program

variable {p : Program}

/-- What a branch tests is the first operand of a two-way branch. -/
theorem condition?_eq_some_iff {branch : NodeId} {condition : Operand} :
    p.condition? branch = some condition ↔ ∃ n, p.node? branch = some n ∧
      n.isCondBranch = true ∧ n.operands.head? = some condition := by
  rw [condition?, Option.bind_eq_bind, Option.bind_eq_some_iff]
  simp only [Node.condition?, Option.ite_none_right_eq_some]

/-- The frontier of a value consists of the control merges among what the value needs. -/
theorem mem_mergeFrontier_iff {root id : NodeId} :
    id ∈ p.mergeFrontier (.node root) ↔ p.Needs root id ∧ p.isMergeAt id = true := by
  rw [mergeFrontier_node, List.mem_filter, mem_operandCone_iff]
  refine and_congr_left fun hmerge => and_iff_left ?_
  obtain ⟨n, hn, _⟩ := isMergeAt_iff.mp hmerge
  exact ⟨n, hn⟩

/-- A frontier is a single control merge when the value needs that one and no other. -/
theorem mergeFrontier_eq_singleton_iff {root merge : NodeId} :
    p.mergeFrontier (.node root) = [merge] ↔
      ∀ id, p.Needs root id ∧ p.isMergeAt id = true ↔ id = merge := by
  have hnodup : (p.mergeFrontier (.node root)).Nodup := p.nodup_nodeIds.sublist List.filter_sublist
  rw [← List.perm_singleton, List.perm_ext_iff_of_nodup hnodup (List.nodup_singleton merge)]
  simp only [mem_mergeFrontier_iff, List.mem_singleton]

end Program

namespace Match

variable {p : Program}

/-- An induction guard tests something whose frontier is one control merge, and the merge has a
name that starts with the stem. -/
theorem isInductionGuard_iff {branch : NodeId} {stem : String} :
    isInductionGuard p branch stem = true ↔ ∃ condition merge m name,
      p.condition? branch = some condition ∧ p.mergeFrontier condition = [merge] ∧
      p.node? merge = some m ∧ m.name = some name ∧ stem.toList <+: name.toList := by
  constructor
  · intro h
    unfold isInductionGuard at h
    split at h
    · cases h
    · next condition hcondition =>
      split at h
      · next merge hmerge =>
        split at h
        · next name hname =>
          obtain ⟨m, hm, hname⟩ := Option.bind_eq_some_iff.mp hname
          exact ⟨condition, merge, m, name, hcondition, hmerge, hm, hname,
            List.isPrefixOf_iff_prefix.mp h⟩
        · cases h
      · cases h
  · rintro ⟨condition, merge, m, name, hcondition, hmerge, hm, hname, hstem⟩
    simpa [isInductionGuard, hcondition, hmerge, hm, hname] using hstem

/-- Only the frontier of a node can have a member. -/
theorem exists_node_of_mergeFrontier_eq {operand : Operand} {merge : NodeId}
    (h : p.mergeFrontier operand = [merge]) : ∃ root, operand = .node root := by
  cases operand with
  | node root => exact ⟨root, rfl⟩
  | constant value => cases h
  | external e => cases h

/-- The cone of a node lists, by strictly ascending position, exactly the nodes that exist among
what it needs, and the search for its frontier meets exactly the control merges of the cone, within
the rounds it is given. No traversal along operands that stops at control merges goes on for ever,
some traversal from the node comes to its end, and every one that does has visited exactly what the
node needs, missing nodes included, so that it gives both the cone and the frontier. A branch is an
induction guard when it is a two-way branch on a node that needs exactly one control merge, and that
merge has a name that starts with the stem. -/
theorem cone_frontier_and_guards (p : Program) :
    (∀ root, (p.operandCone root).Pairwise (· < ·) ∧
      (∀ id, id ∈ p.operandCone root ↔ p.Needs root id ∧ ∃ n, p.node? id = some n) ∧
      p.mergeFrontier (.node root) = (p.operandCone root).filter p.isMergeAt ∧
      (∃ visited, Reach.Agenda.Ends p.coneNext root visited) ∧
      (∀ visited, Reach.Agenda.Ends p.coneNext root visited →
        (∀ id, id ∈ visited ↔ p.Needs root id) ∧
        p.nodeIds.filter visited.contains = p.operandCone root ∧
        ∀ id, id ∈ p.mergeFrontier (.node root) ↔ id ∈ visited ∧ p.isMergeAt id = true) ∧
      ∀ rounds, p.frontierRounds ≤ rounds →
        p.frontierFrom rounds [] [root] = p.frontierFrom p.frontierRounds [] [root]) ∧
    (WellFounded fun after agenda => Reach.Agenda.Round p.coneNext agenda after) ∧
    ∀ branch stem, isInductionGuard p branch stem = true ↔ ∃ n condition merge m name,
      p.node? branch = some n ∧ n.isCondBranch = true ∧
      n.operands.head? = some (.node condition) ∧
      (∀ id, p.Needs condition id ∧ p.isMergeAt id = true ↔ id = merge) ∧
      p.node? merge = some m ∧ m.name = some name ∧ stem.toList <+: name.toList := by
  have hdomain : ∀ id, id ∉ p.nodeIds → p.coneNext id = [] := fun _ => p.coneNext_of_not_mem
  have hvisited : ∀ {root visited}, Reach.Agenda.Ends p.coneNext root visited →
      ∀ id, id ∈ visited ↔ p.Needs root id := by
    intro root visited hends id
    rw [hends.mem_visited_iff, Program.leads_iff_needs]
  refine ⟨fun root => ⟨p.pairwise_operandCone root, fun _ => Program.mem_operandCone_iff,
    p.mergeFrontier_node root, Reach.Agenda.exists_ends hdomain root, fun visited hends => ?_,
    fun _ hrounds => p.frontierFrom_eq_of_le root hrounds⟩,
    Reach.Agenda.wellFounded_round hdomain, fun branch stem => ?_⟩
  · refine ⟨hvisited hends, Program.operandCone_eq_of_ends hends, fun id => ?_⟩
    rw [Program.mem_mergeFrontier_iff, hvisited hends]
  rw [isInductionGuard_iff]
  constructor
  · rintro ⟨operand, merge, m, name, hcondition, hmerge, hrest⟩
    obtain ⟨condition, rfl⟩ := exists_node_of_mergeFrontier_eq hmerge
    obtain ⟨n, hn, hbranch, hhead⟩ := Program.condition?_eq_some_iff.mp hcondition
    exact ⟨n, condition, merge, m, name, hn, hbranch, hhead,
      Program.mergeFrontier_eq_singleton_iff.mp hmerge, hrest⟩
  · rintro ⟨n, condition, merge, m, name, hn, hbranch, hhead, honly, hrest⟩
    exact ⟨.node condition, merge, m, name,
      Program.condition?_eq_some_iff.mpr ⟨n, hn, hbranch, hhead⟩,
      Program.mergeFrontier_eq_singleton_iff.mpr honly, hrest⟩

end Match

end GuardElision
