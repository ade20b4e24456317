import GuardElision.Proofs.Redundancy.Added
import GuardElision.Proofs.Redundancy.Exact
import GuardElision.Proofs.Redundancy.Turn

/-!
# What the third phase leaves

The third phase goes through its pairs of checks once, while each entry takes a check out of the
pairs that are still to come. Nothing is missed in this way: a pair of checks that are both left at
the end was a pair of live checks when the first of them had its turn. So the ledger is exhausted
when the phase is over (`Phases.Exhausted`), and on an exhausted ledger the phase has nothing to do.
-/

namespace GuardElision.Phases

open Compare

/-- No check that is not in the ledger is covered by a user check in a place that lets it, nor by
another sanitizer check that is not in the ledger. -/
structure Exhausted (s : Strategy) (p : Program) (checks : Inventory) (d : Dominance)
    (l : Ledger) : Prop where
  by_users : ∀ c ∈ checks.sanitizer, ∀ u ∈ checks.user, l.find? c.id = none →
    ∀ x y, p.ownBlock? c = some x → p.ownBlock? u = some y →
    (d.dominates y x = true ∨ d.postDominates y x = true) →
    (s.subsumed p c u .dominance).verdict = false
  by_sanitizers : ∀ i j a b, i ≠ j → checks.sanitizer[i]? = some a →
    checks.sanitizer[j]? = some b → l.find? a.id = none → l.find? b.id = none →
    ∀ x y, checks.effectiveBlock? p i = some x → checks.effectiveBlock? p j = some y →
    (d.dominates y x = true ∨ d.dominates x y = false ∧ d.postDominates y x = true) →
    (s.subsumed p a b .dominance).verdict = false

section

variable (s : Strategy) (p : Program) (checks : Inventory) (d : Dominance) (e : Evidence)

/-- In the third phase the turns follow on what user checks cover. -/
theorem dominance_apply (l : Ledger) (session : Session) : dominance s p checks d e l session =
    (fun first => turns s p d checks e first.1 first.2) (each checks.user
      (fun coverer => each checks.sanitizer (dominatedByUser s p d e coverer)) l session) := rfl

/-- When the third phase is over, the ledger is exhausted. -/
theorem exhausted_dominance (hdistinct : checks.Distinct) (l : Ledger) {session : Session}
    (hs : session.Faithful p) :
    Exhausted s p checks d (dominance s p checks d e l session).1 := by
  have hsettles := settles_byUsers s p d checks e
  obtain ⟨_, hs'⟩ := hsettles.grows l session hs
  rw [dominance_apply]
  refine ⟨fun c hc u hu hlive x y hx hy hrun => ?_,
    fun i j a b hposition ha hb hlive hlive' x y hx hy hrelation => ?_⟩
  · -- a check that `u` covers is in the ledger before the first turn, and stays there
    refine Bool.eq_false_iff.mpr fun hsub => ?_
    have hcovered : CoveredByUser s p d checks e c u ⟨e.totalOf c.id, .dominance, u.id⟩ :=
      ⟨hc, hu, ⟨x, y, hx, hy, by rwa [onEveryRun, Bool.or_eq_true]⟩, hsub, rfl⟩
    have hin := hsettles.complete l session hs c.id _ ⟨c, u, rfl, hcovered⟩
    have hend := (grows_turns s p d checks e _ _ hs').1.contains hin
    rw [← Ledger.contains_eq_false_iff] at hlive
    exact Bool.false_ne_true (hlive.symm.trans hend)
  · -- a check that `b` covers is entered on its turn, since `b` is live to the end
    refine Bool.eq_false_iff.mpr fun hsub => ?_
    rw [← Ledger.contains_eq_false_iff] at hlive hlive'
    have hid : b.id ≠ a.id := fun hid => hposition (hdistinct.position_eq ha hb hid.symm)
    have hend := contains_turns s p d checks e _ hs'
      ((mem_placed_some_iff p checks a i x).mpr ⟨ha, hx⟩)
      ((mem_placed_some_iff p checks b j y).mpr ⟨hb, hy⟩) hposition.symm hid
      ((precedes_iff d y x).mpr hrelation) hsub hlive'
    exact Bool.false_ne_true (hlive.symm.trans hend)

end

section

variable {s : Strategy} {p : Program} {checks : Inventory} {d : Dominance} {l : Ledger}

/-- A check that is left has no user check that covers it. -/
private theorem Exhausted.not_coveredByUser (h : Exhausted s p checks d l) {e : Evidence}
    {c u : Check} {reason : Reason} (hlive : l.find? c.id = none) :
    ¬ CoveredByUser s p d checks e c u reason := by
  intro hcovered
  obtain ⟨x, y, hx, hy, hrun⟩ := hcovered.placed
  rw [onEveryRun, Bool.or_eq_true] at hrun
  have hnot := h.by_users c hcovered.candidate_mem u hcovered.coverer_mem hlive x y hx hy hrun
  exact Bool.false_ne_true (hnot.symm.trans hcovered.subsumed)

/-- A check that is left has no live sanitizer check that covers it. -/
private theorem Exhausted.not_coveredBySanitizer (h : Exhausted s p checks d l) {e : Evidence}
    {a b : Check} {reason : Reason} (hlive : l.find? a.id = none) :
    ¬ CoveredBySanitizer s p d checks e l a b reason := by
  intro hcovered
  obtain ⟨i, j, x, y, hi, hj, hposition, hprecedes⟩ := hcovered.placed
  obtain ⟨ha, hx⟩ := (mem_placed_some_iff p checks a i x).mp hi
  obtain ⟨hb, hy⟩ := (mem_placed_some_iff p checks b j y).mp hj
  have hnot := h.by_sanitizers i j a b hposition.symm ha hb hlive hcovered.coverer_live x y hx hy
    ((precedes_iff d y x).mp hprecedes)
  exact Bool.false_ne_true (hnot.symm.trans hcovered.subsumed)

/-- The third phase leaves an exhausted ledger as it is, whatever evidence there is. -/
theorem Exhausted.dominance_eq_self (h : Exhausted s p checks d l) (e : Evidence)
    {session : Session} (hs : session.Faithful p) :
    (dominance s p checks d e l session).1 = l := by
  obtain ⟨hgrow, hs'⟩ := grows_byUsers s p d checks e l session hs
  have hfirst := hgrow.eq_of_forall_new_not fun id reason hnew ⟨c, u, hid, hcovered⟩ =>
    h.not_coveredByUser (hid ▸ hnew) hcovered
  rw [dominance_apply]
  dsimp only
  rw [hfirst]
  refine (grows_turns s p d checks e l _ hs').1.eq_of_forall_new_not ?_
  rintro _ reason hnew ⟨a, b, rfl, hcovered⟩
  exact h.not_coveredBySanitizer hnew hcovered

end

/-- The third phase leaves nothing that it could still remove: no check that is not in the ledger
is covered by a user check that dominates or post-dominates it by their own blocks, and no two such
sanitizer checks stand, by their effective blocks, where one of them covers the other. If the phase
goes on from there it enters no check, and the ledger stays as it is. -/
theorem dominance_exhausts {s : Strategy} {p : Program} {checks : Inventory}
    (hdistinct : checks.Distinct) (d : Dominance) (e : Evidence) (l : Ledger) {session : Session}
    (hs : session.Faithful p) :
    Exhausted s p checks d (dominance s p checks d e l session).1 ∧
    ∀ again : Session, again.Faithful p →
      (counted (dominance s p checks d e) (dominance s p checks d e l session).1 again).1 =
        (0, (dominance s p checks d e l session).1) := by
  have hexhausted := exhausted_dominance s p checks d e hdistinct l hs
  refine ⟨hexhausted, fun again hagain => ?_⟩
  have hsame := hexhausted.dominance_eq_self e hagain
  rw [counted_fst (counts_dominance s p checks d e), hsame, Nat.sub_self]

/-- Once the test on the detour has given way to the one where the arms meet, another round finds
nothing: no user check covers the test that is left. -/
theorem detour_exhausted :
    detourChecks.Distinct ∧
    (dominance ⟨.l2, "indvars", 32⟩ detour detourChecks (.ofProgram detour) {} (.empty : Ledger)
      {}).1.keys = [⟨1⟩] ∧
    Exhausted ⟨.l2, "indvars", 32⟩ detour detourChecks (.ofProgram detour)
      (dominance ⟨.l2, "indvars", 32⟩ detour detourChecks (.ofProgram detour) {} .empty {}).1 ∧
    (counted (dominance ⟨.l2, "indvars", 32⟩ detour detourChecks (.ofProgram detour) {})
      (dominance ⟨.l2, "indvars", 32⟩ detour detourChecks (.ofProgram detour) {} .empty {}).1
      {}).1.1 = 0 := by
  have hdistinct : detourChecks.Distinct := by decide
  have hfresh := Session.faithful_fresh detour
  obtain ⟨hexhausted, hagain⟩ :=
    dominance_exhausts (s := ⟨.l2, "indvars", 32⟩) hdistinct (.ofProgram detour) {} .empty hfresh
  refine ⟨hdistinct, by decide +kernel, hexhausted, ?_⟩
  rw [hagain {} hfresh]

end GuardElision.Phases
