import GuardElision.Cost.Oracle
import GuardElision.Decimal.Binary
import GuardElision.Ordered.Map

/-!
# Ranking checks by cost

Checks of equal cost form a group, and the groups are ranked by ascending cost. Each group
takes up a range of the total cost and a range of the number of checks, both as shares of
the whole; where the whole is zero it counts as one.
-/

namespace GuardElision

/-- A range of shares. -/
structure ShareRange where
  start : Binary64
  stop : Binary64
  deriving DecidableEq, Repr, Inhabited

/-- The checks of one cost. -/
structure CostGroup where
  cost : Count
  members : List CheckId
  costRange : ShareRange
  rankRange : ShareRange
  deriving DecidableEq, Repr, Inhabited

/-- All checks, grouped and ranked by cost. -/
structure CostRanking where
  groups : List CostGroup
  totalCost : Count
  totalChecks : Nat
  deriving DecidableEq, Repr

/-- What became of a check. -/
inductive Verdict where
  | redundantWithUser
  | redundantWithSanitizer
  | live
  deriving DecidableEq, Repr, Inhabited

/-- Where one check stands in the ranking. -/
structure CheckDetail where
  id : CheckId
  cost : Count
  totalCost : Count
  totalChecks : UInt64
  indexInGroup : UInt64
  groupSize : UInt64
  costRange : ShareRange
  rankRange : ShareRange
  verdict : Verdict
  deriving DecidableEq, Repr, Inhabited

namespace CostRanking

/-- The checks by cost, each group in the order of the list. -/
def byCost (costs : List CheckCost) : SortedMap Count (List CheckId) :=
  costs.foldl (fun m c => m.insert c.cost ((m.find? c.cost).getD [] ++ [c.id])) .empty

/-- The groups of costs and members, given what comes before them and the two wholes. -/
def rankFrom (costWhole countWhole : Float) : (costBefore countBefore : Float) →
    List (Count × List CheckId) → List CostGroup
  | _, _, [] => []
  | costBefore, countBefore, (cost, members) :: rest =>
    let size := members.length.toFloat
    let costAfter := costBefore + cost.toFloat * size
    let countAfter := countBefore + size
    { cost
      members
      costRange := ⟨.ofFloat (costBefore / costWhole), .ofFloat (costAfter / costWhole)⟩
      rankRange := ⟨.ofFloat (countBefore / countWhole), .ofFloat (countAfter / countWhole)⟩ } ::
      rankFrom costWhole countWhole costAfter countAfter rest

/-- The ranking of some checks. -/
def ofCosts (costs : List CheckCost) : CostRanking :=
  let totalCost := Count.sum (costs.map CheckCost.cost)
  let totalChecks := costs.length
  { groups := rankFrom (max totalCost 1).toFloat (max totalChecks 1).toFloat 0.0 0.0
      (byCost costs).entries
    totalCost
    totalChecks }

/-- The first group that holds a check, and the check's place in it. -/
def locate? (r : CostRanking) (id : CheckId) : Option (CostGroup × Nat) :=
  r.groups.findSome? fun g => (g.members.findIdx? (· == id)).map fun i => (g, i)

/-- Where a check stands. -/
def detail? (r : CostRanking) (id : CheckId) (verdict : Verdict) : Option CheckDetail := do
  let (g, i) ← r.locate? id
  return {
    id
    cost := g.cost
    totalCost := r.totalCost
    totalChecks := UInt64.ofNat r.totalChecks
    indexInGroup := UInt64.ofNat i
    groupSize := UInt64.ofNat g.members.length
    costRange := g.costRange
    rankRange := g.rankRange
    verdict }

end CostRanking

end GuardElision
