import GuardElision.Proofs.Run.Accounting
import Mathlib.Algebra.BigOperators.Group.List.Basic
import Mathlib.Algebra.BigOperators.Ring.List

/-!
# The costs in a report

A check costs what its operations cost, once for every execution, and a report adds up what the
checks cost, first all of them and then those that are left. Products and sums stick at the largest
word at every step. This never distorts a result that fits in a word: what a step cuts off was over
the limit anyway, and no later step comes back from there, so each number is the exact one, cut once
at the end.
-/

namespace GuardElision

namespace Count

/-- Cutting every summand first makes no difference to a sum that is cut at the end. -/
theorem min_sum_min (exact : List Nat) :
    min (exact.map fun n => min n limit).sum limit = min exact.sum limit := by
  induction exact with
  | nil => rfl
  | cons n rest ih =>
    rw [List.map_cons, List.sum_cons, List.sum_cons]
    omega

/-- Summing multiples of counts gives the multiple of their exact sum, cut at the largest word. -/
theorem toNat_sum_mul (counts : List Count) (times : Count) :
    (sum (counts.map fun c => mul c times)).toNat =
      min (times.toNat * (counts.map UInt64.toNat).sum) limit := by
  have hproducts : (counts.map fun c => mul c times).map UInt64.toNat =
      ((counts.map UInt64.toNat).map fun n => times.toNat * n).map fun n => min n limit := by
    simp only [List.map_map]
    refine List.map_congr_left fun c _ => ?_
    simp [Nat.mul_comm]
  rw [toNat_sum, hproducts]
  exact (min_sum_min _).trans (by rw [List.sum_map_mul_left, List.map_id'])

end Count

namespace CheckCost

variable (o : CostOracle) (p : Program) (id : CheckId) (executions : Count)

/-- A check costs what its operations cost, an operation of unknown cost one, once for every
execution. -/
theorem toNat_cost_of (cone : List NodeId) :
    (of o p id cone executions).cost.toNat =
      min (executions.toNat * (cone.map fun x => ((o.cost? p x).getD 1).toNat).sum)
        Count.limit := by
  rw [of, Count.toNat_sum_mul, List.map_map]
  rfl

/-- The order of the operations does not matter. -/
theorem of_perm {cone cone' : List NodeId} (h : cone.Perm cone') :
    of o p id cone executions = of o p id cone' executions := by
  have hcost : (of o p id cone executions).cost = (of o p id cone' executions).cost := by
    rw [← UInt64.toNat_inj, toNat_cost_of, toNat_cost_of, (h.map _).sum_eq]
  have hfree := (((h.map (o.cost p)).filter (· == 0)).length_eq)
  simp only [of, mk.injEq, true_and] at hcost ⊢
  exact ⟨hcost, congrArg UInt64.ofNat hfree⟩

end CheckCost

namespace Report

/-- The costs in a report on some checks add up, given what each of them costs. -/
structure AddsCosts (r : Report) (checks : List Check) (costOf : Check → Count) : Prop where
  total_eq : r.totalCost.toNat = min (checks.map fun c => (costOf c).toNat).sum Count.limit
  after_eq : r.totalCostAfter.toNat =
    min ((checks.filter fun c => ¬ r.Eliminates c.id).map fun c => (costOf c).toNat).sum
      Count.limit
  after_le : r.totalCostAfter ≤ r.totalCost
  /-- Unless all costs together exceed a word, what is saved is what the eliminated checks cost. -/
  saved : (checks.map fun c => (costOf c).toNat).sum < 2 ^ 64 → r.totalCost.toNat =
    r.totalCostAfter.toNat +
      ((checks.filter fun c => r.Eliminates c.id).map fun c => (costOf c).toNat).sum

/-- Costs that are the exact sums, cut at the largest word, add up. -/
theorem addsCosts_of_sums {r : Report} {checks : List Check} {costOf : Check → Count}
    (htotal : r.totalCost.toNat = min (checks.map fun c => (costOf c).toNat).sum Count.limit)
    (hafter : r.totalCostAfter.toNat =
      min ((checks.filter fun c => ¬ r.Eliminates c.id).map fun c => (costOf c).toNat).sum
        Count.limit) : r.AddsCosts checks costOf := by
  have hsplit := List.sum_map_filter_add_sum_map_filter_not (fun c => r.Eliminates c.id)
    (fun c => (costOf c).toNat) checks
  refine ⟨htotal, hafter, ?_, fun hfits => ?_⟩
  · rw [UInt64.le_iff_toNat_le, htotal, hafter]
    omega
  · have hlimit : Count.limit = 2 ^ 64 - 1 := rfl
    rw [htotal, hafter]
    omega

end Report

/-- What a check costs in a program, with what it depends on and how often it ran. -/
def Setup.price (setup : Setup) (p : Program) (e : Evidence) (c : Check) : CheckCost :=
  .of setup.oracle p c.id (setup.classifier.coneOf p c) (e.totalOf c.id)

namespace Analysis

variable {setup : Setup} {p : Program} {checks : Inventory}

/-- What a run adds up are the prices of the sanitizer checks. -/
theorem costs_eq (hb : checks.Belongs p setup.classifier) (e : Evidence) :
    costs setup.oracle p checks e = setup.classifier.sanitizer.map (setup.price p e) := by
  have hpairs : setup.classifier.sanitizer.zip
        (setup.classifier.sanitizer.map (setup.classifier.coneOf p)) =
      setup.classifier.sanitizer.map fun c => (c, setup.classifier.coneOf p c) := by
    simpa using @List.zip_map' _ _ _ id (setup.classifier.coneOf p) setup.classifier.sanitizer
  rw [costs, hb.sanitizer_eq, hb.cones_eq, hpairs, List.map_map]
  rfl

/-- The costs in a report that is drawn up on a ledger add up. -/
theorem addsCosts_report {f : Findings} {skipped : List Warning} {eliminated : List Elimination}
    (hb : checks.Belongs p setup.classifier)
    (hentries : eliminated.map (fun e => (e.check, e.reason)) =
      (ledger setup.settings p checks f).1.entries) :
    (report setup p checks f (ledger setup.settings p checks f).1 skipped eliminated).AddsCosts
      setup.classifier.sanitizer fun c => (setup.price p f.evidence c).cost := by
  generalize hr :
    report setup p checks f (ledger setup.settings p checks f).1 skipped eliminated = r
  have hlists : r.Lists (ledger setup.settings p checks f).1 := hr ▸ hentries
  have hleft : ∀ c : Check, (!(ledger setup.settings p checks f).1.contains c.id) =
      decide (¬ r.Eliminates c.id) := by
    intro c
    rw [decide_not, Bool.not_eq_eq_eq_not, Bool.not_not, Bool.eq_iff_iff, decide_eq_true_iff,
      Ledger.contains_iff, hlists.eliminates_iff]
  have htotal : r.totalCost = Count.sum
      (setup.classifier.sanitizer.map fun c => (setup.price p f.evidence c).cost) := by
    have hall : r.totalCost = Count.sum ((costs setup.oracle p checks f.evidence).map
        CheckCost.cost) := by
      rw [← hr]
      rfl
    rw [hall, costs_eq hb, List.map_map]
    rfl
  have hafter : r.totalCostAfter = Count.sum ((setup.classifier.sanitizer.filter fun c =>
      ¬ r.Eliminates c.id).map fun c => (setup.price p f.evidence c).cost) := by
    have hrest : r.totalCostAfter = costAfter (ledger setup.settings p checks f).1
        (costs setup.oracle p checks f.evidence) := by
      rw [← hr]
      rfl
    rw [hrest, costAfter, costs_eq hb, List.filter_map, List.map_map, ← funext hleft]
    rfl
  refine Report.addsCosts_of_sums ?_ ?_
  · rw [htotal, Count.toNat_sum, List.map_map]
    rfl
  · rw [hafter, Count.toNat_sum, List.map_map]
    rfl

end Analysis

namespace Setup

/-- Whatever operations cost, a check costs the multiple of what the operations of its cone cost
together, in any order, an unknown operation counting one; and in the report of a run these costs
add up: all of them to the total, those of the checks that were not eliminated to what is left.
Every number is exact until it exceeds a word. -/
theorem costs_exact (setup : Setup) (p : Program) :
    (∀ id cone executions,
      (CheckCost.of setup.oracle p id cone executions).cost.toNat =
        min (executions.toNat * (cone.map fun x => ((setup.oracle.cost? p x).getD 1).toNat).sum)
          Count.limit ∧
      ∀ cone', cone.Perm cone' → CheckCost.of setup.oracle p id cone executions =
        CheckCost.of setup.oracle p id cone' executions) ∧
    ∀ checks, Inventory.take p setup.classifier = .ok checks → ∀ source,
      setup.Gives p source fun _ r => r.AddsCosts setup.classifier.sanitizer fun c =>
        (setup.price p (setup.findings p checks source).evidence c).cost := by
  refine ⟨fun id cone executions => ⟨CheckCost.toNat_cost_of _ p id executions cone,
    fun _ => CheckCost.of_perm _ p id executions⟩, fun checks haccepted source => ?_⟩
  have hb := (Inventory.take_eq_ok_iff p setup.classifier checks).mp haccepted
  obtain ⟨eliminated, hentries, hrun⟩ :=
    Analysis.run_eq_report setup hb (setup.findings p checks source)
  exact ⟨_, _, (runFrom_of_belongs hb source).trans hrun, Analysis.addsCosts_report hb hentries⟩

/-- The run on the stages where a branch costs four and the first check also depends on an operation
that nobody knows. -/
def pricedStages : Setup :=
  { stagesSetup with
    classifier := stagesSetup.classifier.setCone ⟨1⟩ [⟨1⟩, ⟨9⟩]
    oracle := .table ⟨[("br", 4)]⟩ }

/-- The unknown operation costs one, too many executions cost the largest word, and the checks that
the run eliminates cost 60, 40 and 28 out of 196. -/
theorem pricedStages_costs :
    (CheckCost.of pricedStages.oracle stages ⟨1⟩ [⟨1⟩, ⟨9⟩] 12).cost.toNat = 60 ∧
    (CheckCost.of pricedStages.oracle stages ⟨1⟩ [⟨1⟩, ⟨9⟩] 4000000000000000000).cost.toNat =
      Count.limit ∧
    pricedStages.Gives stages (.given stagesFindings) fun _ r =>
      (r.totalCost = 196 ∧ r.totalCostAfter = 68) ∧
      r.AddsCosts pricedStages.classifier.sanitizer fun c =>
        (pricedStages.price stages stagesFindings.evidence c).cost := by
  obtain ⟨hcheck, hrun⟩ := costs_exact pricedStages stages
  refine ⟨(hcheck ⟨1⟩ [⟨1⟩, ⟨9⟩] 12).1.trans (by decide +kernel),
    (hcheck ⟨1⟩ [⟨1⟩, ⟨9⟩] 4000000000000000000).1.trans (by decide +kernel), ?_⟩
  exact Gives.and (by decide +kernel) (hrun _ rfl (.given stagesFindings))

end Setup

end GuardElision
