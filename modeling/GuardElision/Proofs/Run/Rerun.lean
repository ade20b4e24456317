import GuardElision.Proofs.Match.Outside
import GuardElision.Proofs.Redundancy.Survivor
import GuardElision.Proofs.Run.Accounting

/-!
# A second run

A run on a folded program finds nothing new. The folded checks test constants, so they cover no
check that is left, unless counts alone are trusted, and then they covered it before. All other
checks look as they did: no operand points at a folded branch, so slices, cones and shapes that
start elsewhere are the same, and folding moves no block. Whatever the second run enters in its
ledger, the first one had to enter as well, because each phase leaves out no check that it could
cover (`Analysis.ledger_contains_of_offered`, `Analysis.ledger_contains_of_precedes`).
-/

namespace GuardElision

namespace Program

variable (p : Program) (k : Classifier) (cs : List Check)

@[simp] theorem name_foldEach : (p.foldEach k cs).name = p.name := by
  obtain ⟨nodes, _, h⟩ := p.foldEach_eq k cs
  rw [h]

theorem nodeIds_foldEach : (p.foldEach k cs).nodeIds = p.nodeIds := by
  obtain ⟨nodes, hsize, h⟩ := p.foldEach_eq k cs
  rw [h, nodeIds, nodeIds, ← hsize]

/-- Folding changes neither blocks nor procedures. -/
theorem dominance_foldEach : Dominance.ofProgram (p.foldEach k cs) = .ofProgram p := by
  obtain ⟨nodes, _, h⟩ := p.foldEach_eq k cs
  rw [h]
  rfl

theorem ownBlock?_foldEach (c : Check) : (p.foldEach k cs).ownBlock? c = p.ownBlock? c := by
  rw [ownBlock?, ownBlock?, node?_foldEach, Option.map_map]
  congr 1
  funext n
  exact n.block_towardsAll _

/-- The last two-way branch of a cone stays where it is. -/
private theorem lastBranch_foldEach (cone : List NodeId) :
    (((cone.filterMap (p.foldEach k cs).node?).reverse.find? (·.isCondBranch)).map (·.block)) =
      ((cone.filterMap p.node?).reverse.find? (·.isCondBranch)).map (·.block) := by
  induction cone with
  | nil => rfl
  | cons id rest ih =>
    rw [List.filterMap_cons, List.filterMap_cons, node?_foldEach]
    cases p.node? id with
    | none => exact ih
    | some n =>
      simp only [Option.map_some, List.reverse_cons, List.find?_append, Option.map_or, ih]
      congr 1
      cases hn : n.isCondBranch <;> simp [hn]

theorem effectiveBlock?_foldEach (c : Check) (cone : List NodeId) :
    (p.foldEach k cs).effectiveBlock? c cone = p.effectiveBlock? c cone := by
  have hblock : ∀ q : Program, q.effectiveBlock? c cone =
      ((((cone.filter (· != c.branch)).filterMap q.node?).reverse.find? (·.isCondBranch)).map
        (·.block)).or (q.ownBlock? c) := by
    intro q
    unfold effectiveBlock?
    dsimp only
    split
    · next hfind => rw [hfind]; rfl
    · next hfind => rw [hfind]; rfl
  rw [hblock, hblock, lastBranch_foldEach, ownBlock?_foldEach]

end Program

/-- Some check of a list has its branch at a node. -/
def BranchOf (cs : List Check) (id : NodeId) : Prop := ∃ c ∈ cs, c.branch = id

namespace Classifier

/-- The checks of a program do not get into each other's way when they are folded: each has a
branch of its own, sanitizer checks have a known exit and test no constant, and no operand points
at a check. -/
structure Foldable (k : Classifier) (p : Program) : Prop where
  branches : ((k.sanitizer ++ k.user).map Check.branch).Nodup
  exits : ∀ c ∈ k.sanitizer, k.exitOf c = .left ∨ k.exitOf c = .right
  conditions : ∀ c ∈ k.sanitizer, ∀ value,
    p.condition? c.branch ≠ some (.constant (.bool value))
  unseen : ∀ id n, p.node? id = some n →
    ∀ c ∈ k.sanitizer ++ k.user, Operand.node c.branch ∉ n.operands

namespace Foldable

variable {k : Classifier} {p : Program} (h : k.Foldable p) {cs : List Check}
  (hcs : ∀ c ∈ cs, c ∈ k.sanitizer)

include h

/-- A branch belongs to one sanitizer check. -/
theorem eq_of_branch_eq {c d : Check} (hc : c ∈ k.sanitizer) (hd : d ∈ k.sanitizer)
    (hbranch : c.branch = d.branch) : c = d :=
  List.inj_on_of_nodup_map h.branches (List.mem_append_left _ hc) (List.mem_append_left _ hd)
    hbranch

include hcs

/-- Folding sanitizer checks is not seen from elsewhere. -/
theorem sameOutside : p.SameOutside (BranchOf cs) (p.foldEach k cs) := by
  refine ⟨p.nodeIds_foldEach k cs, fun id hid => ?_, fun id n hn operand hoperand => ?_⟩
  · exact p.node?_foldEach_of_forall_ne k fun c hc hbranch => hid ⟨c, hc, hbranch⟩
  · rintro target htarget ⟨c, hc, rfl⟩
    exact h.unseen id n hn c (List.mem_append_left _ (hcs c hc)) (htarget ▸ hoperand)

theorem user_apart {u : Check} (hu : u ∈ k.user) : ¬ BranchOf cs u.branch := by
  rintro ⟨c, hc, hbranch⟩
  have hnodup := h.branches
  rw [List.map_append] at hnodup
  exact (List.nodup_append.mp hnodup).2.2 c.branch (List.mem_map_of_mem (hcs c hc)) u.branch
    (List.mem_map_of_mem hu) hbranch

theorem sanitizer_apart {c : Check} (hc : c ∈ k.sanitizer) (hleft : c ∉ cs) :
    ¬ BranchOf cs c.branch := by
  rintro ⟨d, hd, hbranch⟩
  exact hleft (h.eq_of_branch_eq (hcs d hd) hc hbranch ▸ hd)

/-- The branch of a folded check is folded towards its exit. -/
theorem node?_folded {c : Check} (hc : c ∈ cs) {n : Node} (hn : p.node? c.branch = some n) :
    (p.foldEach k cs).node? c.branch = some (n.towards (k.exitOf c)) := by
  have hne : k.exitsAt cs c.branch ≠ [] := by
    simp only [Classifier.exitsAt, ne_eq, List.map_eq_nil_iff, List.filter_eq_nil_iff]
    exact fun hall => hall c hc (beq_self_eq_true _)
  have hall : ∀ e ∈ k.exitsAt cs c.branch, e = k.exitOf c := by
    intro e he
    obtain ⟨d, hd, rfl⟩ := List.mem_map.mp he
    obtain ⟨hmem, hbranch⟩ := List.mem_filter.mp hd
    rw [h.eq_of_branch_eq (hcs d hmem) (hcs c hc) (eq_of_beq hbranch)]
  rw [p.node?_foldEach, hn, Option.map_some, Node.towardsAll_of_forall_eq hne hall]

/-- A folded check tests a constant. -/
theorem condition?_folded {c : Check} (hc : c ∈ cs) {n : Node} (hn : p.branchOf c = .ok n) :
    ∃ value, (p.foldEach k cs).condition? c.branch = some (.constant (.bool value)) := by
  obtain ⟨hnode, hbranch⟩ := (p.branchOf_eq_ok_iff c n).mp hn
  obtain ⟨value, hvalue⟩ : ∃ value, (k.exitOf c).constant? = some value := by
    rcases h.exits c (hcs c hc) with hexit | hexit
    · exact ⟨true, by rw [hexit]; rfl⟩
    · exact ⟨false, by rw [hexit]; rfl⟩
  refine ⟨value, ?_⟩
  rw [Program.condition?, h.node?_folded hcs hc hnode]
  exact Node.condition?_towards hbranch hvalue

end Foldable

end Classifier

namespace Strategy

open Compare

/-- A check that tests a constant covers none that does not, unless counts are trusted. -/
theorem verdict_subsumed_of_constant {s : Strategy} {p : Program} {candidate coverer : Check}
    {source : Source} {value : Bool}
    (hcounts : ¬ (source = .coverage ∧ s.level.trustsCounts = true))
    (hcandidate : p.condition? candidate.branch ≠ some (.constant (.bool value)))
    (hcoverer : p.condition? coverer.branch = some (.constant (.bool value))) :
    (s.subsumed p candidate coverer source).verdict = false := by
  have hproves : Proves p (s.subsumed p candidate coverer source) False := by
    rw [subsumed, if_neg hcounts]
    refine Proves.ite (fun _ => ?_) fun _ => ?_
    · rw [hcoverer]
      split
      · next a b ha hb =>
        obtain rfl := Option.some.inj hb
        refine (Match.steady_sameShape p _ _ _).ensures.mono fun _ hverdict htrue => ?_
        rcases (Match.sameShape_verdict_iff p _ _ _).mp (hverdict.symm.trans htrue) with
          rfl | ⟨_, _, _, _, _, hnode, _⟩
        · exact hcandidate ha
        · cases hnode
      · exact proves_false
    · refine (ensures_sliceCheck _ candidate.branch).bind fun own _ => ?_
      refine (steady_refine p candidate coverer source own).ensures.bind fun found _ => ?_
      refine (ensures_sliceCheck _ coverer.branch).bind fun covering hcovering => ?_
      rw [Match.sameLocation_of_eq_empty (.inr (by rw [hcovering, hcoverer]; rfl))]
      exact proves_false
  rw [← Bool.not_eq_true]
  exact (hproves {} (Session.faithful_fresh p)).1

end Strategy

namespace Analysis

open Compare Phases

variable {s : Settings} {k : Classifier} {p : Program} {cs : List Check}
  {checks checks' : Inventory} (hk : k.Foldable p) (hcs : ∀ c ∈ cs, c ∈ k.sanitizer)
  (hb : checks.Belongs p k) (hb' : checks'.Belongs (p.foldEach k cs) k)

include hk hcs

/-- A user check covers on the folded program what it covered before. -/
private theorem user_covers {strategy : Strategy} {candidate coverer : Check} (source : Source)
    (hcandidate : candidate ∈ k.sanitizer) (hleft : candidate ∉ cs) (hcoverer : coverer ∈ k.user) :
    (strategy.subsumed (p.foldEach k cs) candidate coverer source).verdict =
      (strategy.subsumed p candidate coverer source).verdict :=
  Strategy.verdict_subsumed_eq (hk.sameOutside hcs) strategy
    (hk.sanitizer_apart hcs hcandidate hleft) (hk.user_apart hcs hcoverer) source

include hb

/-- What a sanitizer check covers on the folded program it covered before; by dominance, only
checks that are not folded cover anything. -/
private theorem sanitizer_covers {strategy : Strategy} {candidate coverer : Check} {source : Source}
    (hcandidate : candidate ∈ k.sanitizer) (hleft : candidate ∉ cs)
    (hcoverer : coverer ∈ k.sanitizer)
    (h : (strategy.subsumed (p.foldEach k cs) candidate coverer source).verdict = true) :
    (strategy.subsumed p candidate coverer source).verdict = true ∧
      (source = .dominance → coverer ∉ cs) := by
  have hsame := hk.sameOutside hcs
  have hapart := hk.sanitizer_apart hcs hcandidate hleft
  by_cases hfolded : coverer ∈ cs
  · by_cases hcounts : source = .coverage ∧ strategy.level.trustsCounts = true
    · rw [Strategy.subsumed_of_trustsCounts p candidate coverer hcounts]
      exact ⟨rfl, fun hsource => by simp [hsource] at hcounts⟩
    · obtain ⟨n, hn⟩ := hb.branches coverer (List.mem_append_left _ hcoverer)
      obtain ⟨value, hvalue⟩ := hk.condition?_folded hcs hfolded hn
      have hopen : (p.foldEach k cs).condition? candidate.branch ≠
          some (.constant (.bool value)) := by
        rw [hsame.condition?_eq hapart]
        exact hk.conditions candidate hcandidate value
      rw [Strategy.verdict_subsumed_of_constant hcounts hopen hvalue] at h
      cases h
  · rw [Strategy.verdict_subsumed_eq hsame strategy hapart
      (hk.sanitizer_apart hcs hcoverer hfolded)] at h
    exact ⟨h, fun _ => hfolded⟩

include hb'

/-- What is offered for a check that is not folded was offered before. -/
private theorem offered_of_foldEach {f : Findings} {candidate : Check} {reason : Reason}
    (hleft : candidate ∉ cs) (h : Offered s (p.foldEach k cs) checks' f candidate reason) :
    Offered s p checks f candidate reason := by
  have hsanitizer : checks'.sanitizer = checks.sanitizer :=
    hb'.sanitizer_eq.trans hb.sanitizer_eq.symm
  have huser : checks'.user = checks.user := hb'.user_eq.trans hb.user_eq.symm
  cases h with
  | user hon hs hu h =>
    obtain ⟨coverer, r, hmem, count, entry, hprobe, hget, hcovers, hreason⟩ := h
    have hcandidate : candidate ∈ k.sanitizer := hb'.sanitizer_eq ▸ List.mem_of_getElem? hget
    have hcoverer : coverer ∈ k.user := hb'.user_eq ▸ (List.of_mem_zip hmem).1
    rw [huser] at hmem
    rw [hsanitizer] at hget
    rw [ProbeCovers, user_covers hk hcs .coverage hcandidate hleft hcoverer,
      Strategy.isInductionGuard_eq (hk.sameOutside hcs) _
        (hk.sanitizer_apart hcs hcandidate hleft)] at hcovers
    exact .user hon hs hu ⟨coverer, r, hmem, count, entry, hprobe, hget, hcovers, hreason⟩
  | earlier hon hs ht hd h =>
    obtain ⟨ordinal, r, hget, hr, htotal, entry, coverer, hentry, hmatch, hother, hsub, hreason⟩ :=
      h
    rw [hsanitizer] at hd hget hother
    have hcandidate : candidate ∈ k.sanitizer := hb.sanitizer_eq ▸ List.mem_of_getElem? hget
    have hcoverer : coverer ∈ k.sanitizer := hb.sanitizer_eq ▸ List.mem_of_getElem? hother
    have hsub := (sanitizer_covers hk hcs hb hcandidate hleft hcoverer hsub).1
    exact .earlier hon hs ht hd
      ⟨ordinal, r, hget, hr, htotal, entry, coverer, hentry, hmatch, hother, hsub, hreason⟩
  | @dominance coverer hon h =>
    have hcandidate : candidate ∈ k.sanitizer := hb'.sanitizer_eq ▸ h.candidate_mem
    have hcoverer : coverer ∈ k.user := hb'.user_eq ▸ h.coverer_mem
    obtain ⟨a, b, ha, hb, hrun⟩ := h.placed
    rw [p.ownBlock?_foldEach] at ha hb
    rw [p.dominance_foldEach] at hrun
    have hsub := h.subsumed
    rw [user_covers hk hcs .dominance hcandidate hleft hcoverer] at hsub
    exact .dominance hon ⟨hsanitizer ▸ h.candidate_mem, huser ▸ h.coverer_mem,
      ⟨a, b, ha, hb, hrun⟩, hsub, h.reason_eq⟩

/-- A check that is not folded is placed as before. -/
private theorem placed_of_foldEach {c : Check} {i : Nat} {block : Option BlockId} (hleft : c ∉ cs)
    (h : (c, i, block) ∈ placed (p.foldEach k cs) checks') : (c, i, block) ∈ placed p checks := by
  obtain ⟨hget, hblock⟩ := (hb'.mem_placed_iff c i block).mp h
  have hc : c ∈ k.sanitizer := List.mem_of_getElem? hget
  have hcone : k.coneOf (p.foldEach k cs) c = k.coneOf p c := by
    unfold Classifier.coneOf
    cases k.cones.find? c.id with
    | some cone => rfl
    | none => exact (hk.sameOutside hcs).operandCone_eq (hk.sanitizer_apart hcs hc hleft)
  rw [Classifier.effectiveBlock?, hcone, p.effectiveBlock?_foldEach] at hblock
  exact (hb.mem_placed_iff c i block).mpr ⟨hget, hblock⟩

/-- A second run enters only checks that the first one entered. -/
theorem ledger_foldEach {f : Findings}
    (hentered : ∀ c ∈ k.sanitizer, c ∈ cs ↔ (ledger s p checks f).1.contains c.id = true)
    {id : CheckId} (h : (ledger s (p.foldEach k cs) checks' f).1.contains id = true) :
    (ledger s p checks f).1.contains id = true := by
  obtain ⟨reason, hfind⟩ := (Ledger.contains_iff _ id).mp h
  obtain ⟨candidate, rfl, hentry⟩ := ledger_entry s (p.foldEach k cs) checks' f hfind
  refine Decidable.byContradiction fun hout => ?_
  have hleft : candidate ∉ cs := fun hin => hout ((hentered candidate (hcs candidate hin)).mp hin)
  rcases hentry with hoffered | ⟨hon, l, coverer, hcovered⟩
  · exact hout (ledger_contains_of_offered s p checks f
      (offered_of_foldEach hk hcs hb hb' hleft hoffered))
  · obtain ⟨i, j, x, y, hx, hy, hposition, hprecedes⟩ := hcovered.placed
    have hcandidate := List.mem_of_getElem? ((hb'.mem_placed_iff candidate i _).mp hx).1
    have hcoverer := List.mem_of_getElem? ((hb'.mem_placed_iff coverer j _).mp hy).1
    obtain ⟨hsub, hfolded⟩ :=
      sanitizer_covers hk hcs hb hcandidate hleft hcoverer hcovered.subsumed
    have hstands : coverer ∉ cs := hfolded rfl
    have hlive : (ledger s p checks f).1.contains coverer.id = false := by
      rw [← Bool.not_eq_true]
      exact fun hin => hstands ((hentered coverer hcoverer).mpr hin)
    rw [p.dominance_foldEach] at hprecedes
    exact hout (ledger_contains_of_precedes s p checks f hon
      (placed_of_foldEach hk hcs hb hb' hleft hx) (placed_of_foldEach hk hcs hb hb' hstands hy)
      hposition hcovered.ids_ne hprecedes hsub hlive)

end Analysis

/-- Folding takes no check away. -/
theorem Inventory.Belongs.foldEach {p : Program} {k : Classifier} {checks : Inventory}
    (h : checks.Belongs p k) (cs : List Check) :
    ∃ checks' : Inventory, checks'.Belongs (p.foldEach k cs) k := by
  refine ⟨⟨k.sanitizer, k.user, k.sanitizer.map (k.coneOf (p.foldEach k cs))⟩, rfl, rfl, rfl, ?_,
    h.distinct⟩
  exact fun c hc => Program.branchOf_foldEach (h.branches c hc) k cs

namespace Setup

variable {setup : Setup} {p : Program}

/-- What a source says does not depend on the cones of the checks. -/
private theorem findings_congr {q : Program} {checks checks' : Inventory} (hname : q.name = p.name)
    (hsanitizer : checks'.sanitizer = checks.sanitizer) (huser : checks'.user = checks.user)
    (source : FindingsSource) :
    setup.findings q checks' source = setup.findings p checks source := by
  cases source with
  | given f => rfl
  | files t => simp only [findings, Findings.load, Findings.loadUser, hname, hsanitizer, huser]

/-- Where the checks do not get into each other's way, a second run with the same inputs succeeds
on the folded program, eliminates only checks that the first run eliminated, and leaves the
program as it is. -/
theorem rerun_unchanged {q : Program} {source : FindingsSource} {r : Report}
    (hk : setup.classifier.Foldable p) (hrun : setup.runFrom p source = .ok (q, r)) :
    setup.Gives q source fun q' r' => q' = q ∧ ∀ id, r'.Eliminates id → r.Eliminates id := by
  obtain ⟨checks, hb, hlists, rfl⟩ := ledger_of_runFrom hrun
  have hmem := r.mem_eliminatedChecks_iff hb
  have hcs : ∀ c ∈ r.eliminatedChecks setup.classifier, c ∈ setup.classifier.sanitizer :=
    fun c hc => ((hmem c).mp hc).1
  obtain ⟨checks', hb'⟩ := hb.foldEach (r.eliminatedChecks setup.classifier)
  obtain ⟨r', hlists', hok⟩ := Analysis.run_eq_ok setup hb' (setup.findings p checks source)
  have hsecond := runFrom_of_belongs hb' source
  rw [findings_congr (p.name_foldEach _ _) (hb'.sanitizer_eq.trans hb.sanitizer_eq.symm)
    (hb'.user_eq.trans hb.user_eq.symm) source, hok] at hsecond
  have hsubset : ∀ id, r'.Eliminates id → r.Eliminates id := by
    intro id hid
    rw [hlists'.eliminates_iff, ← Ledger.contains_iff] at hid
    rw [hlists.eliminates_iff, ← Ledger.contains_iff]
    refine Analysis.ledger_foldEach hk hcs hb hb' (fun c hc => ?_) hid
    rw [hmem, hlists.eliminates_iff, ← Ledger.contains_iff]
    exact and_iff_right hc
  refine ⟨_, r', hsecond, ?_, hsubset⟩
  -- what the second run folds, the first one has folded
  refine Program.foldEach_eq_self fun c hc => ?_
  obtain ⟨hc, helim⟩ := (r'.mem_eliminatedChecks_iff hb' c).mp hc
  obtain ⟨n, hn⟩ := hb.branches c (List.mem_append_left _ hc)
  have hnode := ((p.branchOf_eq_ok_iff c n).mp hn).1
  exact ⟨_, hk.node?_folded hcs ((hmem c).mpr ⟨hc, hsubset c.id helim⟩) hnode,
    Node.towards_towards n _⟩

private theorem foldable_stages : stagesSetup.classifier.Foldable stages where
  branches := by decide
  exits := by decide
  conditions := by decide +kernel
  unseen := (stages.forall_node_iff _).mpr (by decide +kernel)

/-- After the run on the stages, which eliminates a check in each phase and leaves two, a second run
with the same coverage finds nothing new. -/
theorem stages_rerun : stagesSetup.Gives stages (.given stagesFindings) fun q r =>
    ([1, 3, 4].all fun id => r.Eliminates ⟨id⟩) ∧ ([2, 5].all fun id => ¬ r.Eliminates ⟨id⟩) ∧
      stagesSetup.Gives q (.given stagesFindings) fun q' r' =>
        q' = q ∧ ∀ id, r'.Eliminates id → r.Eliminates id := by
  have hfirst : stagesSetup.Gives stages (.given stagesFindings) fun _ r =>
      ([1, 3, 4].all fun id => r.Eliminates ⟨id⟩) ∧
        ([2, 5].all fun id => ¬ r.Eliminates ⟨id⟩) := by
    decide +kernel
  obtain ⟨q, r, hrun, hgone, hleft⟩ := hfirst
  exact ⟨q, r, hrun, hgone, hleft, rerun_unchanged foldable_stages hrun⟩

end Setup

end GuardElision
