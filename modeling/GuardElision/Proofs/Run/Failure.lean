import GuardElision.Program.Builder
import GuardElision.Proofs.Run.Outcome

/-!
# What a failed run leaves behind

A run may write to the program it is given, fold by fold, and a fold can fail: what was written
before the failure would stay (`Analysis.foldInPlace`). It never comes to that. Taking stock
fails before anything is written, and it fails exactly when some check has no two-way branch in
the program or a number that an earlier check has; the failure is that of the first such check.
Once stock is taken every fold succeeds, because folding keeps all two-way branches. So the
program is the old one after every failure, and the folded one otherwise.
-/

namespace GuardElision

namespace Inventory

/-- What is wrong with a check that is listed behind some others. -/
inductive Fault (p : Program) (earlier : List Check) (c : Check) : Mismatch → Prop where
  | missing : p.node? c.branch = none → Fault p earlier c .missingBranch
  | notBranch {n : Node} : p.node? c.branch = some n →
      ¬ (n.opcode = .condBranch ∧ n.successors.length = 2) → Fault p earlier c .notCondBranch
  | duplicate {n : Node} {d : Check} : p.node? c.branch = some n → n.opcode = .condBranch →
      n.successors.length = 2 → d ∈ earlier → d.id = c.id → Fault p earlier c .duplicateId

/-- A check is the first one of a list with a fault. -/
def FirstFault (p : Program) (checks : List Check) (c : Check) (reason : Mismatch) : Prop :=
  ∃ before after, checks = before ++ c :: after ∧ Fault p before c reason ∧
    ∀ first d last other, before = first ++ d :: last → ¬ Fault p first d other

theorem isCondBranch_iff (n : Node) :
    n.isCondBranch = true ↔ n.opcode = .condBranch ∧ n.successors.length = 2 := by
  simp [Node.isCondBranch]

/-- The fault that is looked for is the one that there is. -/
theorem fault?_eq_some_iff (p : Program) (earlier : List Check) (c : Check) (reason : Mismatch) :
    fault? p (earlier.map Check.id) c = some reason ↔ Fault p earlier c reason := by
  unfold fault? Program.branchOf
  cases hnode : p.node? c.branch with
  | none =>
    constructor
    · intro h
      cases h
      exact .missing hnode
    · rintro (_ | ⟨h, _⟩ | ⟨h, _⟩)
      · rfl
      · cases hnode.symm.trans h
      · cases hnode.symm.trans h
  | some n =>
    by_cases hn : n.isCondBranch = true
    · obtain ⟨hop, hsuccessors⟩ := (isCondBranch_iff n).mp hn
      simp only [hn, if_true, List.contains_iff_mem, List.mem_map, Option.ite_none_right_eq_some]
      constructor
      · rintro ⟨⟨d, hd, hid⟩, h⟩
        cases h
        exact .duplicate hnode hop hsuccessors hd hid
      · rintro (h | ⟨h, hnot⟩ | ⟨_, _, _, hd, hid⟩)
        · cases hnode.symm.trans h
        · cases hnode.symm.trans h
          exact absurd ⟨hop, hsuccessors⟩ hnot
        · exact ⟨⟨_, hd, hid⟩, rfl⟩
    · have hnot : ¬ (n.opcode = .condBranch ∧ n.successors.length = 2) :=
        fun h => hn ((isCondBranch_iff n).mpr h)
      simp only [hn, Bool.false_eq_true, if_false]
      constructor
      · intro h
        cases h
        exact .notBranch hnode hnot
      · rintro (h | _ | ⟨h, hop, hsuccessors, _⟩)
        · cases hnode.symm.trans h
        · rfl
        · cases hnode.symm.trans h
          exact absurd ⟨hop, hsuccessors⟩ hnot

/-- A fault stays when more checks are listed before. -/
theorem Fault.mono {p : Program} {earlier more : List Check} {c : Check} {reason : Mismatch}
    (h : Fault p earlier c reason) (hmore : ∀ d ∈ earlier, d ∈ more) : Fault p more c reason := by
  cases h with
  | missing hnode => exact .missing hnode
  | notBranch hnode hnot => exact .notBranch hnode hnot
  | duplicate hnode hop hsuccessors hd hid => exact .duplicate hnode hop hsuccessors (hmore _ hd) hid

-- Numbers in use are collected last to first, so the checks before the first fault stand reversed.
private theorem firstFault?_eq_some {p : Program} (earlier : List Check) {checks : List Check}
    {cause : RunError} (h : firstFault? p (earlier.map Check.id) checks = some cause) :
    ∃ before c after reason, checks = before ++ c :: after ∧
      Fault p (before.reverse ++ earlier) c reason ∧
      (∀ first d last other, before = first ++ d :: last →
        ¬ Fault p (first.reverse ++ earlier) d other) ∧
      cause = .ofMismatch c reason := by
  induction checks generalizing earlier with
  | nil => cases h
  | cons d rest ih =>
    rw [firstFault?] at h
    cases hfault : fault? p (earlier.map Check.id) d with
    | some reason =>
      rw [hfault] at h
      obtain rfl := Option.some.inj h
      refine ⟨[], d, rest, reason, rfl, (fault?_eq_some_iff p earlier d reason).mp hfault, ?_, rfl⟩
      intro first x last other hnil
      simp at hnil
    | none =>
      rw [hfault] at h
      obtain ⟨before, c, after, reason, rfl, hc, hfirst, rfl⟩ := ih (d :: earlier) h
      refine ⟨d :: before, c, after, reason, rfl, by simpa using hc, ?_, rfl⟩
      intro first x last other hsplit hx
      cases first with
      | nil =>
        obtain ⟨rfl, _⟩ := List.cons.inj hsplit
        rw [(fault?_eq_some_iff p earlier d other).mpr hx] at hfault
        cases hfault
      | cons y first =>
        obtain ⟨rfl, hrest⟩ := List.cons.inj hsplit
        exact hfirst first x last other hrest (by simpa using hx)

/-- Taking stock fails with the first fault. -/
theorem firstFault_of_take_eq_error {p : Program} {k : Classifier} {cause : RunError}
    (h : take p k = .error cause) : ∃ c reason,
      FirstFault p (k.sanitizer ++ k.user) c reason ∧ cause = .structural c.id c.branch reason := by
  unfold take at h
  split at h
  · next fault hfault =>
    cases h
    obtain ⟨before, c, after, reason, hsplit, hc, hfirst, rfl⟩ :=
      firstFault?_eq_some [] hfault
    refine ⟨c, reason, ⟨before, after, hsplit, hc.mono (by simp), ?_⟩, rfl⟩
    intro first d last other hbefore hd
    exact hfirst first d last other hbefore (hd.mono (by simp))
  · cases h

/-- Checks that belong to the program have no fault. -/
theorem Belongs.not_fault {p : Program} {k : Classifier} {checks : Inventory}
    (h : checks.Belongs p k) {before after : List Check} {c : Check}
    (hsplit : k.sanitizer ++ k.user = before ++ c :: after) (reason : Mismatch) :
    ¬ Fault p before c reason := by
  have hmem : c ∈ k.sanitizer ++ k.user := by simp [hsplit]
  obtain ⟨n, hn⟩ := h.branches c hmem
  obtain ⟨hnode, hbranch⟩ := (p.branchOf_eq_ok_iff c n).mp hn
  rintro (hnone | ⟨hnode', hnot⟩ | ⟨_, _, _, hd, hid⟩)
  · cases hnode.symm.trans hnone
  · obtain rfl := Option.some.inj (hnode.symm.trans hnode')
    exact hnot ((isCondBranch_iff n).mp hbranch)
  · have hdistinct := h.distinct
    rw [hsplit, List.map_append, List.map_cons, List.nodup_append] at hdistinct
    exact hdistinct.2.2 _ (List.mem_map_of_mem hd) _ List.mem_cons_self hid

end Inventory

open Build in
/-- Two tests, one behind the other. -/
def twoTests : Program :=
  let steps : Build Unit := do
    let main ← procedure "main"
    let start ← block main
    let middle ← block main
    let done ← block main
    let first ← external "first"
    let second ← external "second"
    let _ ← branch start (.external first) middle done
    let _ ← branch middle (.external second) done done
  (steps.run.run { name := "two" }).2

/-- A run in which both tests are listed, then the second one once more under the number of the first,
and a check without a branch. -/
def faultySetup : Setup where
  settings := {}
  classifier :=
    { sanitizer := [⟨⟨1⟩, ⟨0⟩, .sanitizer, .generic⟩, ⟨⟨2⟩, ⟨1⟩, .sanitizer, .generic⟩]
      user := [⟨⟨1⟩, ⟨1⟩, .user, .generic⟩, ⟨⟨3⟩, ⟨9⟩, .user, .generic⟩]
      exits := .ofList [(⟨1⟩, .left), (⟨2⟩, .left)] }
  oracle := .uniform

namespace Analysis

/-- Fold the planned checks in turn, in the program itself: what was folded before a failure stays
folded. -/
def foldInPlace (k : Classifier) : Program → List (Check × Reason) →
    Except RunError (List Elimination) × Program
  | p, [] => (.ok [], p)
  | p, (c, reason) :: rest =>
    match p.eliminate c (k.exitOf c) with
    | .error cause => (.error (.ofMismatch c cause), p)
    | .ok (p, outcome) =>
      let (eliminated, q) := foldInPlace k p rest
      (eliminated.map ({ check := c.id, reason, outcome } :: ·), q)

/-- When all folds succeed, folding in place lists them and leaves the folded program. -/
theorem foldInPlace_of_foldAll {k : Classifier} {p q : Program} {plan : List (Check × Reason)}
    {eliminated : List Elimination} (h : foldAll k p plan = .ok (q, eliminated)) :
    foldInPlace k p plan = (.ok eliminated, q) := by
  induction plan generalizing p eliminated with
  | nil =>
    cases h
    rfl
  | cons e rest ih =>
    obtain ⟨c, reason⟩ := e
    rw [foldAll] at h
    rw [foldInPlace]
    cases hfold : p.eliminate c (k.exitOf c) with
    | error cause =>
      rw [hfold] at h
      cases h
    | ok result =>
      obtain ⟨next, outcome⟩ := result
      rw [hfold] at h
      dsimp only at h ⊢
      cases hrest : foldAll k next rest with
      | error cause =>
        rw [hrest] at h
        cases h
      | ok folded =>
        obtain ⟨last, others⟩ := folded
        rw [hrest] at h
        obtain ⟨rfl, rfl⟩ := Prod.mk.inj (Except.ok.inj h)
        rw [ih hrest]
        rfl

-- Alone, folding in place is not atomic: a plan that fails at its second check leaves the first folded.
example : (foldInPlace faultySetup.classifier twoTests
    [(⟨⟨1⟩, ⟨0⟩, .sanitizer, .generic⟩, default), (⟨⟨3⟩, ⟨9⟩, .user, .generic⟩, default)]).2 ≠
      twoTests := by
  decide +kernel

end Analysis

namespace Setup

/-- Analyse a program and fold it in place: the report or the failure, and the program
afterwards. -/
def runInPlace (setup : Setup) (p : Program) (source : FindingsSource) :
    Except RunError Report × Program :=
  match Inventory.take p setup.classifier with
  | .error cause => (.error cause, p)
  | .ok checks =>
    let f := setup.findings p checks source
    let (l, skipped) := Analysis.ledger setup.settings p checks f
    let (eliminated, q) := Analysis.foldInPlace setup.classifier p (Analysis.plan checks l)
    (eliminated.map (Analysis.report setup p checks f l skipped), q)

/-- A run reports and leaves the folded program, or fails to take stock and leaves the old one. -/
theorem runInPlace_cases (setup : Setup) (p : Program) (source : FindingsSource) :
    (∃ checks : Inventory, checks.Belongs p setup.classifier ∧
      ∃ q r, setup.runFrom p source = .ok (q, r) ∧ setup.runInPlace p source = (.ok r, q)) ∨
    ∃ cause, Inventory.take p setup.classifier = .error cause ∧
      setup.runFrom p source = .error cause ∧ setup.runInPlace p source = (.error cause, p) := by
  cases htake : Inventory.take p setup.classifier with
  | error cause =>
    refine .inr ⟨cause, rfl, ?_, ?_⟩
    · rw [runFrom_eq, htake]
      rfl
    · rw [runInPlace, htake]
  | ok checks =>
    have hbelongs := (Inventory.take_eq_ok_iff p setup.classifier checks).mp htake
    have hgrounded := Analysis.grounded_ledger setup.settings hbelongs
      (setup.findings p checks source)
    cases hledger : Analysis.ledger setup.settings p checks (setup.findings p checks source) with
    | mk l skipped =>
      rw [hledger] at hgrounded
      obtain ⟨q, eliminated, hfold⟩ : ∃ q eliminated, Analysis.foldAll setup.classifier p
          (Analysis.plan checks l) = .ok (q, eliminated) := by
        obtain ⟨eliminated, _, hfold⟩ := hbelongs.foldAll_plan hgrounded.entered
        exact ⟨_, eliminated, hfold⟩
      refine .inl ⟨checks, hbelongs, q, Analysis.report setup p checks
        (setup.findings p checks source) l skipped eliminated, ?_, ?_⟩
      · rw [runFrom_of_belongs hbelongs, Analysis.run, hledger]
        dsimp only
        rw [hfold]
        rfl
      · rw [runInPlace, htake]
        dsimp only
        rw [hledger]
        dsimp only
        rw [Analysis.foldInPlace_of_foldAll hfold]
        rfl

/-- Whatever the settings and wherever the findings come from, a run in place ends with the report
or the failure that the run has, and with the program that the run gives. It fails exactly when
a listed check has a fault, with the first such check for its cause, and then the program is
the old one. -/
theorem runInPlace_atomic (setup : Setup) (p : Program) (source : FindingsSource) :
    (setup.runInPlace p source).1 = (setup.runFrom p source).map Prod.snd ∧
    (∀ q r, setup.runFrom p source = .ok (q, r) → (setup.runInPlace p source).2 = q) ∧
    ((∃ cause, (setup.runInPlace p source).1 = .error cause) ↔
      ∃ before c after reason,
        setup.classifier.sanitizer ++ setup.classifier.user = before ++ c :: after ∧
          Inventory.Fault p before c reason) ∧
    ∀ cause, (setup.runInPlace p source).1 = .error cause →
      (setup.runInPlace p source).2 = p ∧
      ∃ c reason, cause = .structural c.id c.branch reason ∧
        Inventory.FirstFault p (setup.classifier.sanitizer ++ setup.classifier.user) c reason := by
  rcases setup.runInPlace_cases p source with
    ⟨checks, hbelongs, q, r, hrun, hplace⟩ | ⟨cause, htake, hrun, hplace⟩
  · rw [hrun, hplace]
    refine ⟨rfl, fun _ _ h => ?_, ⟨?_, ?_⟩, nofun⟩
    · exact (Prod.mk.inj (Except.ok.inj h)).1
    · rintro ⟨_, h⟩
      cases h
    · rintro ⟨before, c, after, reason, hsplit, hfault⟩
      exact absurd hfault (hbelongs.not_fault hsplit reason)
  · obtain ⟨c, reason, hfirst, rfl⟩ := Inventory.firstFault_of_take_eq_error htake
    rw [hrun, hplace]
    refine ⟨rfl, nofun, ⟨fun _ => ?_, fun _ => ⟨_, rfl⟩⟩, fun cause h => ⟨rfl, ?_⟩⟩
    · obtain ⟨before, after, hsplit, hfault, _⟩ := hfirst
      exact ⟨before, c, after, reason, hsplit, hfault⟩
    · cases h
      exact ⟨c, reason, rfl, hfirst⟩

/-- The number that is used again decides the failure, before the branch that is missing. -/
theorem twoTests_atomic :
    (faultySetup.runInPlace twoTests (.given {})).1 = .error (.structural ⟨1⟩ ⟨1⟩ .duplicateId) ∧
    (faultySetup.runInPlace twoTests (.given {})).2 = twoTests ∧
    ∃ c reason, RunError.structural ⟨1⟩ ⟨1⟩ .duplicateId = .structural c.id c.branch reason ∧
      Inventory.FirstFault twoTests
        (faultySetup.classifier.sanitizer ++ faultySetup.classifier.user) c reason := by
  have hfails : (faultySetup.runInPlace twoTests (.given {})).1 =
      .error (.structural ⟨1⟩ ⟨1⟩ .duplicateId) := rfl
  exact ⟨hfails, (faultySetup.runInPlace_atomic twoTests (.given {})).2.2.2 _ hfails⟩

end Setup

end GuardElision
