import GuardElision.Cost.Ranking
import GuardElision.Proofs.Ordered.Map
import Mathlib.Algebra.GroupWithZero.Nat
import Mathlib.Data.List.Induction
import Mathlib.Data.List.Nodup

/-!
# A ranking partitions the checks

The checks enter the groups one after another, each at the end of the group of its cost
(`byCost_concat`). So a group consists of all checks of its cost in the order of the list, and as
the numbers of checks are distinct, each check is in one group only. Looking a check up finds that
group, and the place in it is the number of checks of the same cost that come earlier.
-/

namespace GuardElision

namespace CostRanking

/-- The checks of some cost, in the order of the list. -/
def ofCost (costs : List CheckCost) (cost : Count) : List CheckId :=
  (costs.filter fun c => c.cost == cost).map CheckCost.id

section Grouping

variable (costs : List CheckCost)

/-- The last check enters the group of its cost at the end. -/
theorem byCost_concat (c : CheckCost) : byCost (costs ++ [c]) =
    (byCost costs).insert c.cost (((byCost costs).find? c.cost).getD [] ++ [c.id]) := by
  rw [byCost, List.foldl_append]
  rfl

theorem ofCost_concat (c : CheckCost) (cost : Count) : ofCost (costs ++ [c]) cost =
    ofCost costs cost ++ if cost = c.cost then [c.id] else [] := by
  by_cases h : cost = c.cost
  · simp [ofCost, h]
  · have hne : c.cost ≠ cost := Ne.symm h
    simp [ofCost, h, hne]

/-- Under a cost stand the checks of that cost. -/
theorem getD_find?_byCost (cost : Count) :
    ((byCost costs).find? cost).getD [] = ofCost costs cost := by
  induction costs using List.reverseRecOn with
  | nil => rfl
  | append_singleton costs c ih =>
    rw [byCost_concat, SortedMap.find?_insert, ofCost_concat]
    by_cases h : cost = c.cost
    · rw [if_pos h, if_pos h, Option.getD_some, ← h, ih]
    · rw [if_neg h, if_neg h, ih, List.append_nil]

/-- No group is without checks. -/
theorem find?_byCost_ne_nil (cost : Count) : (byCost costs).find? cost ≠ some [] := by
  induction costs using List.reverseRecOn with
  | nil => exact nofun
  | append_singleton costs c ih =>
    rw [byCost_concat, SortedMap.find?_insert]
    by_cases h : cost = c.cost
    · simp [h]
    · rwa [if_neg h]

/-- The groups are those of the costs that some check has. -/
theorem find?_byCost_eq_some_iff {cost : Count} {members : List CheckId} :
    (byCost costs).find? cost = some members ↔ members = ofCost costs cost ∧ members ≠ [] := by
  constructor
  · intro h
    have hmembers := getD_find?_byCost costs cost
    rw [h, Option.getD_some] at hmembers
    exact ⟨hmembers, fun hnil => find?_byCost_ne_nil costs cost (hnil ▸ h)⟩
  · rintro ⟨rfl, hne⟩
    rw [← getD_find?_byCost costs cost] at hne ⊢
    cases hfind : (byCost costs).find? cost with
    | none => simp [hfind] at hne
    | some members => rfl

end Grouping

/-- Ranking adds the shares and leaves costs and members as they are. -/
theorem map_rankFrom (costWhole countWhole costBefore countBefore : Float)
    (entries : List (Count × List CheckId)) :
    (rankFrom costWhole countWhole costBefore countBefore entries).map
      (fun g => (g.cost, g.members)) = entries := by
  induction entries generalizing costBefore countBefore with
  | nil => rfl
  | cons e rest ih => rw [rankFrom, List.map_cons, ih]

section Groups

variable {costs : List CheckCost}

theorem map_groups : (ofCosts costs).groups.map (fun g => (g.cost, g.members)) =
    (byCost costs).entries := map_rankFrom _ _ _ _ _

theorem pairwise_groups : (ofCosts costs).groups.Pairwise fun g g' => g.cost < g'.cost := by
  have h : Ascending (byCost costs).entries := (byCost costs).ascending
  rw [← map_groups, Ascending, List.pairwise_map] at h
  exact h.imp UInt64.lt_iff_toNat_lt.mpr

/-- A group holds the checks of its cost, and there are some. -/
theorem members_of_mem_groups {g : CostGroup} (hg : g ∈ (ofCosts costs).groups) :
    g.members = ofCost costs g.cost ∧ g.members ≠ [] := by
  have hentry : (g.cost, g.members) ∈ (byCost costs).entries :=
    map_groups ▸ List.mem_map_of_mem (f := fun g : CostGroup => (g.cost, g.members)) hg
  exact (find?_byCost_eq_some_iff costs).mp ((SortedMap.mem_entries_iff _ _ _).mp hentry)

/-- The cost of each check has a group. -/
theorem exists_group {c : CheckCost} (hc : c ∈ costs) :
    ∃ g ∈ (ofCosts costs).groups, g.cost = c.cost := by
  have hmem : c.id ∈ ofCost costs c.cost :=
    List.mem_map_of_mem (List.mem_filter.mpr ⟨hc, beq_self_eq_true _⟩)
  have hfind := (find?_byCost_eq_some_iff costs).mpr ⟨rfl, List.ne_nil_of_mem hmem⟩
  rw [← SortedMap.mem_entries_iff, ← map_groups, List.mem_map] at hfind
  obtain ⟨g, hg, heq⟩ := hfind
  exact ⟨g, hg, congrArg Prod.fst heq⟩

/-- Groups of one cost are one group. -/
theorem eq_of_cost_eq {g g' : CostGroup} (hg : g ∈ (ofCosts costs).groups)
    (hg' : g' ∈ (ofCosts costs).groups) (h : g.cost = g'.cost) : g = g' := by
  have hnodup : ((ofCosts costs).groups.map CostGroup.cost).Nodup := by
    rw [List.Nodup, List.pairwise_map]
    exact pairwise_groups.imp UInt64.ne_of_lt
  exact List.inj_on_of_nodup_map hnodup hg hg' h

variable (h : (costs.map CheckCost.id).Nodup)

include h

/-- A check is in the group of its cost and in no other. -/
theorem mem_members_iff {c : CheckCost} (hc : c ∈ costs) {g : CostGroup}
    (hg : g ∈ (ofCosts costs).groups) : c.id ∈ g.members ↔ g.cost = c.cost := by
  rw [(members_of_mem_groups hg).1, ofCost, List.mem_map]
  constructor
  · rintro ⟨c', hc', hid⟩
    obtain ⟨hc', hcost⟩ := List.mem_filter.mp hc'
    obtain rfl := List.inj_on_of_nodup_map h hc' hc hid
    exact (eq_of_beq hcost).symm
  · intro hcost
    exact ⟨c, List.mem_filter.mpr ⟨hc, beq_iff_eq.mpr hcost.symm⟩, rfl⟩

/-- The groups together hold every check once. -/
theorem flatMap_members_perm :
    ((ofCosts costs).groups.flatMap CostGroup.members).Perm (costs.map CheckCost.id) := by
  have hsub : ∀ g ∈ (ofCosts costs).groups, g.members.Sublist (costs.map CheckCost.id) := by
    intro g hg
    rw [(members_of_mem_groups hg).1]
    exact List.filter_sublist.map CheckCost.id
  have hdisjoint : (ofCosts costs).groups.Pairwise
      (Function.onFun List.Disjoint CostGroup.members) := by
    refine pairwise_groups.imp_of_mem fun {g g'} hg hg' hlt id hid hid' => ?_
    obtain ⟨c, hc, rfl⟩ := List.mem_map.mp ((hsub g hg).subset hid)
    have hcost := (mem_members_iff h hc hg).mp hid
    have hcost' := (mem_members_iff h hc hg').mp hid'
    exact UInt64.ne_of_lt hlt (hcost.trans hcost'.symm)
  have hnodup : ((ofCosts costs).groups.flatMap CostGroup.members).Nodup :=
    List.nodup_flatMap.mpr ⟨fun g hg => h.sublist (hsub g hg), hdisjoint⟩
  refine (List.perm_ext_iff_of_nodup hnodup h).mpr fun id => ?_
  rw [List.mem_flatMap]
  constructor
  · rintro ⟨g, hg, hid⟩
    exact (hsub g hg).subset hid
  · intro hid
    obtain ⟨c, hc, rfl⟩ := List.mem_map.mp hid
    obtain ⟨g, hg, hcost⟩ := exists_group hc
    exact ⟨g, hg, (mem_members_iff h hc hg).mpr hcost⟩

/-- The place of a check in its group is the number of checks of its cost that come earlier. -/
theorem findIdx?_ofCost {before after : List CheckCost} {c : CheckCost}
    (hcosts : costs = before ++ c :: after) :
    (ofCost costs c.cost).findIdx? (· == c.id) = some (ofCost before c.cost).length := by
  have hearlier : (ofCost before c.cost).findIdx? (· == c.id) = none := by
    refine List.findIdx?_eq_none_iff.mpr fun id hid => ?_
    obtain ⟨c', hc', rfl⟩ := List.mem_map.mp hid
    rw [hcosts, List.map_append, List.map_cons] at h
    have hne : c'.id ≠ c.id := (List.nodup_append.mp h).2.2 _
      (List.mem_map_of_mem (List.mem_filter.mp hc').1) _ List.mem_cons_self
    simpa using hne
  have hsplit : ofCost costs c.cost =
      ofCost before c.cost ++ c.id :: ofCost after c.cost := by
    simp [ofCost, hcosts]
  rw [hsplit, List.findIdx?_append, hearlier, List.findIdx?_cons]
  simp

/-- A check is found in the group of its cost, behind the checks of its cost that come earlier. -/
theorem locate?_eq {before after : List CheckCost} {c : CheckCost}
    (hcosts : costs = before ++ c :: after) {g : CostGroup} (hg : g ∈ (ofCosts costs).groups)
    (hcost : g.cost = c.cost) :
    (ofCosts costs).locate? c.id = some (g, (ofCost before c.cost).length) := by
  have hc : c ∈ costs := hcosts ▸ List.mem_append_right _ List.mem_cons_self
  obtain ⟨front, back, hgroups⟩ := List.append_of_mem hg
  refine List.findSome?_eq_some_iff.mpr ⟨front, g, back, hgroups, ?_, fun g' hg' => ?_⟩
  · rw [(members_of_mem_groups hg).1, hcost, findIdx?_ofCost h hcosts]
    rfl
  · have hmem : g' ∈ (ofCosts costs).groups := hgroups ▸ List.mem_append_left _ hg'
    have hlt : g'.cost < g.cost := by
      have hascending : (ofCosts costs).groups.Pairwise fun g g' => g.cost < g'.cost :=
        pairwise_groups
      rw [hgroups] at hascending
      exact (List.pairwise_append.mp hascending).2.2 g' hg' g List.mem_cons_self
    have hout : c.id ∉ g'.members := fun hid =>
      UInt64.ne_of_lt hlt (((mem_members_iff h hc hmem).mp hid).trans hcost.symm)
    have hnone : g'.members.findIdx? (· == c.id) = none := by
      refine List.findIdx?_eq_none_iff.mpr fun id hid => beq_eq_false_iff_ne.mpr ?_
      rintro rfl
      exact hout hid
    rw [hnone]
    rfl

end Groups

/-- A number that no check has is not found. -/
theorem locate?_eq_none {costs : List CheckCost} {id : CheckId}
    (hid : id ∉ costs.map CheckCost.id) : (ofCosts costs).locate? id = none := by
  refine List.findSome?_eq_none_iff.mpr fun g hg => ?_
  have hnone : g.members.findIdx? (· == id) = none := by
    refine List.findIdx?_eq_none_iff.mpr fun other hother => beq_eq_false_iff_ne.mpr ?_
    rintro rfl
    rw [(members_of_mem_groups hg).1] at hother
    exact hid ((List.filter_sublist.map CheckCost.id).subset hother)
  rw [hnone]
  rfl

/-- A ranking is an ordered partition of some checks by cost. -/
structure Partitions (r : CostRanking) (costs : List CheckCost) : Prop where
  ascending : r.groups.Pairwise fun g g' => g.cost < g'.cost
  nonempty : ∀ g ∈ r.groups, g.members ≠ []
  /-- A group holds the checks of its cost in the order of the list. -/
  members_eq : ∀ g ∈ r.groups,
    g.members = (costs.filter fun c => c.cost == g.cost).map CheckCost.id
  /-- A check is a member of one group, and that group has its cost. -/
  group_of_check : ∀ c ∈ costs, ∃ g ∈ r.groups, g.cost = c.cost ∧ c.id ∈ g.members ∧
    ∀ g' ∈ r.groups, c.id ∈ g'.members → g' = g
  sizes : (r.groups.map fun g => g.members.length).sum = r.totalChecks
  totalChecks_eq : r.totalChecks = costs.length

/-- What a ranking says about a check: its group, and how many checks of its cost come earlier. -/
structure Finds (r : CostRanking) (c : CheckCost) (g : CostGroup) (earlier : Nat) : Prop where
  cost_eq : g.cost = c.cost
  locate? : r.locate? c.id = some (g, earlier)
  detail? : ∀ verdict, r.detail? c.id verdict = some {
    id := c.id
    cost := c.cost
    totalCost := r.totalCost
    totalChecks := UInt64.ofNat r.totalChecks
    indexInGroup := UInt64.ofNat earlier
    groupSize := UInt64.ofNat g.members.length
    costRange := g.costRange
    rankRange := g.rankRange
    verdict }

/-- The ranking of checks with distinct numbers is an ordered partition of them by cost; a check
is found in the group of its cost, at the place that is the number of earlier checks of that cost,
and a number that no check has is not found. -/
theorem ofCosts_partitions {costs : List CheckCost} (h : (costs.map CheckCost.id).Nodup) :
    (ofCosts costs).Partitions costs ∧
      (∀ before c after, costs = before ++ c :: after → ∃ g ∈ (ofCosts costs).groups,
        (ofCosts costs).Finds c g (before.filter fun other => other.cost == c.cost).length) ∧
      ∀ id ∉ costs.map CheckCost.id, (ofCosts costs).locate? id = none ∧
        ∀ verdict, (ofCosts costs).detail? id verdict = none := by
  refine ⟨⟨pairwise_groups, fun g hg => (members_of_mem_groups hg).2,
    fun g hg => (members_of_mem_groups hg).1, fun c hc => ?_, ?_, rfl⟩,
    fun before c after hcosts => ?_, fun id hid => ?_⟩
  · obtain ⟨g, hg, hcost⟩ := exists_group hc
    refine ⟨g, hg, hcost, (mem_members_iff h hc hg).mpr hcost, fun g' hg' hid => ?_⟩
    exact eq_of_cost_eq hg' hg (((mem_members_iff h hc hg').mp hid).trans hcost.symm)
  · have hlength := (flatMap_members_perm h).length_eq
    rwa [List.length_flatMap, List.length_map] at hlength
  · have hc : c ∈ costs := hcosts ▸ List.mem_append_right _ List.mem_cons_self
    obtain ⟨g, hg, hcost⟩ := exists_group hc
    have hlocate := locate?_eq h hcosts hg hcost
    rw [ofCost, List.length_map] at hlocate
    refine ⟨g, hg, hcost, hlocate, fun verdict => ?_⟩
    rw [detail?, hlocate, ← hcost]
    rfl
  · refine ⟨locate?_eq_none hid, fun verdict => ?_⟩
    rw [detail?, locate?_eq_none hid]
    rfl

/-- Four checks, two of them of one cost. -/
def fourChecks : List CheckCost := [⟨⟨1⟩, 30, 0⟩, ⟨⟨2⟩, 10, 0⟩, ⟨⟨3⟩, 30, 2⟩, ⟨⟨4⟩, 0, 1⟩]

/-- The third check is the second one of its cost. -/
theorem fourChecks_partitions : (fourChecks.map CheckCost.id).Nodup ∧
    (ofCosts fourChecks).Partitions fourChecks ∧
    (∃ g ∈ (ofCosts fourChecks).groups, (ofCosts fourChecks).Finds ⟨⟨3⟩, 30, 2⟩ g 1) ∧
    (ofCosts fourChecks).locate? ⟨5⟩ = none := by
  have hnodup : (fourChecks.map CheckCost.id).Nodup := by decide
  obtain ⟨hpartitions, hfinds, hmissing⟩ := ofCosts_partitions hnodup
  exact ⟨hnodup, hpartitions, hfinds [⟨⟨1⟩, 30, 0⟩, ⟨⟨2⟩, 10, 0⟩] ⟨⟨3⟩, 30, 2⟩ [⟨⟨4⟩, 0, 1⟩] rfl,
    (hmissing ⟨5⟩ (by decide)).1⟩

end CostRanking

end GuardElision
