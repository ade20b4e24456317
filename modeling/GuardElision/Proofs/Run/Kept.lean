import GuardElision.Program.Builder
import GuardElision.Proofs.Run.Outcome

/-!
# Which branches a run keeps

A run folds the branches of the checks it lists as eliminated and no other node. A check that
stays keeps its branch, then, unless an eliminated check has the same branch: numbers are
checked to be distinct when stock is taken, branches are not. In the program `sharedBranch` the
user's own check is folded away together with the sanitizer check that it made superfluous.
-/

namespace GuardElision

open Build

/-- A single branch that is listed as a sanitizer check and as a user check. -/
def sharedBranch : Program :=
  let steps : Build Unit := do
    let main ← procedure "main"
    let start ← block main
    let pass ← block main
    let fail ← block main
    let guarded ← external "guarded"
    let _ ← branch start (.external guarded) pass fail
  (steps.run.run { name := "shared" }).2

/-- A run with standard settings in which both checks are listed. -/
def sharedSetup : Setup where
  settings := {}
  classifier :=
    { sanitizer := [⟨⟨1⟩, ⟨0⟩, .sanitizer, .generic⟩]
      user := [⟨⟨100⟩, ⟨0⟩, .user, .generic⟩]
      exits := .ofList [(⟨1⟩, .left)] }
  oracle := .uniform

namespace Setup

variable {setup : Setup} {p q : Program} {source : FindingsSource} {r : Report}

/-- Every node of the folded program is the old one, folded towards the exits of the eliminated
checks that have their branch there. -/
theorem node?_of_runFrom (h : setup.runFrom p source = .ok (q, r)) (id : NodeId) :
    q.node? id = (p.node? id).map (Node.towardsAll
      (setup.classifier.exitsAt (r.eliminatedChecks setup.classifier) id)) := by
  obtain ⟨_, _, _, _, rfl⟩ := of_runFrom_eq_ok h
  exact p.node?_foldEach setup.classifier _ id

/-- A node that is not the branch of an eliminated check stays as it is. -/
theorem node?_eq_of_unshared (h : setup.runFrom p source = .ok (q, r)) {id : NodeId}
    (hid : ∀ c ∈ r.eliminatedChecks setup.classifier, c.branch ≠ id) :
    q.node? id = p.node? id := by
  obtain ⟨_, _, _, _, rfl⟩ := of_runFrom_eq_ok h
  exact p.node?_foldEach_of_forall_ne setup.classifier hid

/-- The branch of a user check, or of a sanitizer check that is not eliminated, is kept exactly
when it tests already what the last eliminated check with the same branch and a known exit, if
there is one, sets it to. -/
theorem kept_branch_iff (h : setup.runFrom p source = .ok (q, r)) {c : Check}
    (hc : c ∈ setup.classifier.user ∨ c ∈ setup.classifier.sanitizer ∧ ¬ r.Eliminates c.id) :
    q.node? c.branch = p.node? c.branch ↔
      ∀ value, RegularExit.lastConstant?
          (setup.classifier.exitsAt (r.eliminatedChecks setup.classifier) c.branch) = some value →
        p.condition? c.branch = some (.constant (.bool value)) := by
  obtain ⟨checks, _, hb, _⟩ := of_runFrom_eq_ok h
  have hlisted : c ∈ setup.classifier.sanitizer ++ setup.classifier.user :=
    List.mem_append.mpr (hc.symm.imp_left And.left)
  obtain ⟨n, hn⟩ := hb.branches c hlisted
  obtain ⟨hnode, hbranch⟩ := (p.branchOf_eq_ok_iff c n).mp hn
  have hcondition : p.condition? c.branch = n.operands.head? := by
    simp [Program.condition?, hnode, Node.condition?, hbranch]
  rw [node?_of_runFrom h, hnode, hcondition, Option.map_some, Option.some.injEq,
    Node.towardsAll_eq_self_iff]

/-- The condition for keeping it is the same for the user's branch that is shared. -/
theorem sharedBranch_kept_iff :
    sharedSetup.Gives sharedBranch (.given {}) fun q r =>
      q.node? ⟨0⟩ = sharedBranch.node? ⟨0⟩ ↔
        ∀ value, RegularExit.lastConstant? (sharedSetup.classifier.exitsAt
            (r.eliminatedChecks sharedSetup.classifier) ⟨0⟩) = some value →
          sharedBranch.condition? ⟨0⟩ = some (.constant (.bool value)) := by
  have hrun : sharedSetup.Gives sharedBranch (.given {}) fun _ _ => True := by decide +kernel
  obtain ⟨q, r, hrun, _⟩ := hrun
  exact ⟨q, r, hrun, kept_branch_iff hrun (.inl List.mem_cons_self)⟩

/-- The user's check is not eliminated and still loses its condition. -/
theorem sharedBranch_folded :
    sharedSetup.Gives sharedBranch (.given {}) fun q r =>
      ∃ c ∈ sharedSetup.classifier.user, ¬ r.Eliminates c.id ∧
        q.node? c.branch ≠ sharedBranch.node? c.branch := by
  decide +kernel

end Setup

end GuardElision
