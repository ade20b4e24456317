import GuardElision.Program.Builder
import GuardElision.Proofs.Match.Requests
import GuardElision.Proofs.Match.Shape
import GuardElision.Proofs.Slice.Dependencies

/-!
# A match covers all dependencies

When one check makes another superfluous by dominance, what the other one tests depends on no
external and no control merge that the first one's condition does not depend on as well. Every
rule of the comparison is shown to lose none of them: two leaves that match have operands
that match place by place, or one of them is found inside what the other is computed from.

The rules run in a session, so each is described by what a positive verdict proves in any
faithful session (`Compare.Proves`).
-/

namespace GuardElision

namespace Compare

variable {p : Program} {α β : Type}

/-- Run in any faithful session, a step finds something with a property and leaves a faithful
session behind. -/
def Ensures (p : Program) (x : Compare α) (holds : α → Prop) : Prop :=
  ∀ s : Session, s.Faithful p → holds (x s).1 ∧ (x s).2.Faithful p

/-- A positive verdict proves a fact, whatever faithful session it is reached in. -/
def Proves (p : Program) (x : Compare Bool) (fact : Prop) : Prop :=
  Ensures p x fun verdict => verdict = true → fact

theorem Steady.ensures {x : Compare α} (h : Steady p x) : Ensures p x (· = x.verdict) :=
  fun s hs => ⟨h.value s hs, h.faithful s hs⟩

/-- The second step may rely on what the first one found. -/
theorem Ensures.bind {x : Compare α} {f : α → Compare β} {found : α → Prop} {holds : β → Prop}
    (hx : Ensures p x found) (hf : ∀ a, found a → Ensures p (f a) holds) :
    Ensures p (x >>= f) holds := by
  intro s hs
  obtain ⟨hfound, hfaithful⟩ := hx s hs
  exact hf (x s).1 hfound (x s).2 hfaithful

theorem Ensures.mono {x : Compare α} {found holds : α → Prop} (hx : Ensures p x found)
    (h : ∀ a, found a → holds a) : Ensures p x holds :=
  fun s hs => ⟨h _ (hx s hs).1, (hx s hs).2⟩

theorem Proves.mono {x : Compare Bool} {fact weaker : Prop} (hx : Proves p x fact)
    (h : fact → weaker) : Proves p x weaker :=
  Ensures.mono hx fun _ hverdict htrue => h (hverdict htrue)

theorem proves_pure {verdict : Bool} {fact : Prop} (h : verdict = true → fact) :
    Proves p (pure verdict) fact := fun _ hs => ⟨h, hs⟩

/-- A negative verdict proves anything. -/
theorem proves_false {fact : Prop} : Proves p (pure false) fact := proves_pure nofun

theorem Proves.ite {c : Prop} [Decidable c] {x y : Compare Bool} {fact : Prop}
    (hx : c → Proves p x fact) (hy : ¬ c → Proves p y fact) :
    Proves p (if c then x else y) fact := by
  split
  · next h => exact hx h
  · next h => exact hy h

theorem Proves.allM {items : List α} {f : α → Compare Bool} {fact : α → Prop}
    (hf : ∀ a ∈ items, Proves p (f a) (fact a)) :
    Proves p (items.allM f) (∀ a ∈ items, fact a) := by
  induction items with
  | nil => exact proves_pure nofun
  | cons a rest ih =>
    have hrest := ih fun b hb => hf b (List.mem_cons_of_mem a hb)
    refine (hf a List.mem_cons_self).bind fun verdict ha => ?_
    cases verdict with
    | false => exact proves_false
    | true => exact hrest.mono fun hall => List.forall_mem_cons.mpr ⟨ha rfl, hall⟩

theorem Proves.anyM {items : List α} {f : α → Compare Bool} {fact : Prop}
    (hf : ∀ a ∈ items, Proves p (f a) fact) : Proves p (items.anyM f) fact := by
  induction items with
  | nil => exact proves_false
  | cons a rest ih =>
    refine (hf a List.mem_cons_self).bind fun verdict ha => ?_
    cases verdict with
    | false => exact ih fun b hb => hf b (List.mem_cons_of_mem a hb)
    | true => exact proves_pure fun _ => ha rfl

theorem ensures_slice (policy : LeafPolicy) (id : NodeId) :
    Ensures p (slice p policy id) (· = p.backwardSlice policy id) :=
  (steady_slice policy id).ensures

theorem ensures_sliceOperand (policy : LeafPolicy) (operand : Operand) :
    Ensures p (sliceOperand p policy operand) (· = p.operandSlice policy operand) := by
  cases operand <;> exact (steady_sliceOperand policy _).ensures

/-- The slice of a check is that of its condition, and empty without one. -/
theorem ensures_sliceCheck (policy : LeafPolicy) (branch : NodeId) :
    Ensures p (sliceCheck p policy branch)
      (· = (p.condition? branch).elim .empty (p.operandSlice policy)) := by
  refine (steady_sliceCheck policy branch).ensures.mono fun found hfound => ?_
  rw [hfound, verdict, sliceCheck, Slicer.sliceCheck]
  cases p.condition? branch with
  | none => rfl
  | some condition => cases condition <;> rfl

end Compare

namespace Fingerprint

/-- All that one fingerprint depends on, another one depends on as well. -/
def DependsWithin (p : Program) (a b : Fingerprint) : Prop :=
  ∀ source, a.DependsOn p source → b.DependsOn p source

end Fingerprint

namespace Match

open Compare Program

/-- Each operand of one list depends on no more than some operand of another. -/
def OperandsWithin (p : Program) (a b : List Operand) : Prop :=
  ∀ u ∈ a, ∃ v ∈ b, p.DependsWithin u v

/-- Places that match pairwise leave no operand unmatched. -/
theorem proves_samePlaces {p : Program} {part : Operand → Operand → Compare Bool}
    (hpart : ∀ x y, Proves p (part x y) (p.DependsWithin x y)) {a b : List Operand}
    (hlength : a.length = b.length) :
    Proves p (samePlaces part a b) (OperandsWithin p a b) := by
  have hpairs : Proves p (samePlaces part a b) (∀ pair ∈ a.zip b, p.DependsWithin pair.1 pair.2) :=
    Proves.allM fun pair _ => hpart pair.1 pair.2
  refine hpairs.mono fun hall u hu => ?_
  obtain ⟨v, hv, hmem⟩ := exists_mem_zip hlength hu
  exact ⟨v, hv, hall (u, v) hmem⟩

section Leaves

variable {p : Program} {deeper : Deeper}
  (hdeeper : ∀ a b, b.WithoutLiterals p → Proves p (deeper a b) (a.DependsWithin p b))
  (policy : MatchPolicy)

include hdeeper

/-- A match of the slices of two operands covers the dependencies of the first. -/
private theorem proves_deeper (x y : Operand) :
    Proves p (deeper (p.operandSlice policy.leaves x) (p.operandSlice policy.leaves y))
      (p.DependsWithin x y) := by
  refine (hdeeper _ _ (p.withoutLiterals_operandSlice policy.leaves y)).mono fun h source hx => ?_
  exact dependsOn_operandSlice_iff.mp (h source (dependsOn_operandSlice_iff.mpr hx))

theorem proves_sameSlices (a b : NodeId) :
    Proves p (sameSlices p policy deeper a b) (p.DependsWithin (.node a) (.node b)) := by
  refine (ensures_slice _ a).bind fun fa hfa => (ensures_slice _ b).bind fun fb hfb => ?_
  rw [hfa, hfb]
  exact proves_deeper hdeeper policy (.node a) (.node b)

private theorem proves_sameOrSlices (x y : NodeId) :
    Proves p (if x = y then pure true else sameSlices p policy deeper x y)
      (p.DependsWithin (.node x) (.node y)) :=
  Proves.ite (fun h => proves_pure fun _ => h ▸ fun _ => id)
    fun _ => proves_sameSlices hdeeper policy x y

theorem proves_sameRead (a b : Node) :
    Proves p (sameRead p policy deeper a b) (OperandsWithin p a.operands b.operands) := by
  have hsingle : ∀ {x y}, p.DependsWithin x y → OperandsWithin p [x] [y] := by
    intro x y h u hu
    obtain rfl := List.mem_singleton.mp hu
    exact ⟨y, List.mem_singleton.mpr rfl, h⟩
  unfold sameRead
  split
  · next x y ha hb =>
    rw [ha, hb]
    exact (proves_sameOrSlices hdeeper policy x y).mono hsingle
  · exact proves_false
  · next x y _ ha hb =>
    rw [ha, hb]
    refine (ensures_sliceOperand _ x).bind fun fa hfa => (ensures_slice _ y).bind fun fb hfb => ?_
    rw [hfa, hfb]
    exact (proves_deeper hdeeper policy x (.node y)).mono hsingle
  · next x y _ _ ha hb =>
    rw [ha, hb]
    exact proves_pure fun heq => hsingle (eq_of_beq heq ▸ fun _ => id)
  · exact proves_false

theorem proves_sameAddressPart (x y : Operand) :
    Proves p (sameAddressPart p policy deeper x y) (p.DependsWithin x y) := by
  unfold sameAddressPart
  split
  · exact proves_sameOrSlices hdeeper policy _ _
  · exact proves_pure fun _ source hdep => absurd hdep not_dependsOn_constant
  · next e y =>
    refine (ensures_slice _ y).bind fun fb hfb => proves_pure fun hmem source hdep => ?_
    obtain rfl := dependsOn_external_iff.mp hdep
    rw [hfb, Fingerprint.contains, List.contains_iff_mem] at hmem
    exact dependsOn_backwardSlice_iff.mp ⟨.external e, hmem, hdep⟩
  · exact proves_pure fun heq => eq_of_beq heq ▸ fun _ => id

theorem proves_sameGenericPart (x y : Operand) :
    Proves p (sameGenericPart p policy deeper x y) (p.DependsWithin x y) := by
  unfold sameGenericPart
  split
  · exact proves_sameOrSlices hdeeper policy _ _
  · exact proves_pure fun heq => eq_of_beq heq ▸ fun _ => id

theorem proves_sameGeneric {a b : Node} (hlength : a.operands.length = b.operands.length) :
    Proves p (sameGeneric p policy deeper a b) (OperandsWithin p a.operands b.operands) := by
  unfold sameGeneric
  split
  · exact proves_pure fun heq u hu => ⟨u, eq_of_beq heq ▸ hu, fun _ => id⟩
  · exact proves_samePlaces (proves_sameGenericPart hdeeper policy) hlength

/-- A leaf that is found inside an operation brings no dependency that the operation has not. -/
theorem proves_matchInside (leaf : Leaf) {id : NodeId} {b : Node} (hb : p.node? id = some b)
    (hop : b.opcode ≠ .constant) :
    Proves p (matchInside p policy deeper leaf b) (p.DependsWithin leaf.operand (.node id)) := by
  unfold matchInside
  refine Proves.ite (fun _ => proves_false) fun hmerge => Proves.anyM fun operand hmem => ?_
  have hoperand : operand ∈ b.operands := (List.mem_filter.mp hmem).1
  refine (ensures_sliceOperand _ operand).bind fun fb hfb => ?_
  rw [hfb]
  refine (hdeeper _ _ (p.withoutLiterals_operandSlice _ operand)).mono fun h source hdep => ?_
  have hfound := h source (Fingerprint.dependsOn_singleton_iff.mpr hdep)
  exact .through hb (by simpa using hmerge) hop hoperand (dependsOn_operandSlice_iff.mp hfound)

theorem proves_sameNode {idA idB : NodeId} {a b : Node} (ha : p.node? idA = some a)
    (hb : p.node? idB = some b) (hop : b.opcode ≠ .constant) :
    Proves p (sameNode p policy deeper idA a b) (p.DependsWithin (.node idA) (.node idB)) := by
  have hinside : Proves p (matchInside p policy deeper (.node idA) b)
      (p.DependsWithin (.node idA) (.node idB)) := proves_matchInside hdeeper policy _ hb hop
  have hplaces : a.isMerge = false → b.isMerge = false →
      OperandsWithin p a.operands b.operands → p.DependsWithin (.node idA) (.node idB) :=
    fun hma hmb => dependsWithin_of_operands ha hma hb hmb fun _ => hop
  unfold sameNode
  split
  · exact proves_false
  · next hopa hopb =>
    exact (proves_sameRead hdeeper policy a b).mono
      (hplaces (by simp [Node.isMerge, hopa]) (by simp [Node.isMerge, hopb]))
  · next hopa hopb =>
    refine Proves.ite (fun hlength => ?_) fun _ => hinside
    exact (proves_samePlaces (proves_sameAddressPart hdeeper policy) hlength).mono
      (hplaces (by simp [Node.isMerge, hopa]) (by simp [Node.isMerge, hopb]))
  · next hopa hopb =>
    refine Proves.ite (fun h => ?_) fun _ => hinside
    exact (proves_sameGeneric hdeeper policy h.2).mono
      (hplaces (by simp [Node.isMerge, hopa]) (by simp [Node.isMerge, hopb]))
  · exact hinside

theorem proves_sameLeaf (a : Leaf) {b : Leaf}
    (hb : ∀ id n, b = .node id → p.node? id = some n → n.opcode ≠ .constant) :
    Proves p (sameLeaf p policy deeper a b) (p.DependsWithin a.operand b.operand) := by
  unfold sameLeaf
  refine Proves.ite (fun h => proves_pure fun _ => h ▸ fun _ => id) fun _ => ?_
  split
  · exact proves_false
  · next idB _ =>
    split
    · exact proves_false
    · next nodeB hnodeB =>
      have hop := hb idB nodeB rfl hnodeB
      split
      · exact proves_matchInside hdeeper policy _ hnodeB hop
      · split
        · exact proves_false
        · next hnodeA => exact proves_sameNode hdeeper policy hnodeA hnodeB hop

/-- Covered leaf by leaf, a fingerprint depends on no more than the one that covers it. -/
theorem proves_coverLeaves (a : Fingerprint) {b : Fingerprint} (hb : b.WithoutLiterals p) :
    Proves p (coverLeaves p policy deeper a b) (a.DependsWithin p b) := by
  have hcover : Proves p (coverLeaves p policy deeper a b)
      (∀ x ∈ a.leaves, ∃ y ∈ b, p.DependsWithin x.operand y.operand) := by
    refine Proves.allM fun x _ => Proves.anyM fun y hy => ?_
    have hliteral : ∀ id n, y = .node id → p.node? id = some n → n.opcode ≠ .constant :=
      fun id n heq => hb id n (heq ▸ hy)
    exact (proves_sameLeaf hdeeper policy x hliteral).mono fun h => ⟨y, hy, h⟩
  refine hcover.mono fun h source hdep => ?_
  obtain ⟨x, hx, hdep⟩ := hdep
  obtain ⟨y, hy, hwithin⟩ := h x hx
  exact ⟨y, hy, hwithin source hdep⟩

end Leaves

/-- Nothing covers the empty fingerprint, and the empty fingerprint covers nothing. -/
theorem sameLocation_of_eq_empty {p : Program} {policy : MatchPolicy} {levels : Nat}
    {a b : Fingerprint} (h : a = .empty ∨ b = .empty) :
    sameLocation p policy levels a b = pure false := by
  have hfew : tooFew a b = true := by
    rcases h with rfl | rfl
    · rfl
    · cases hleaves : a.leaves <;>
        simp [tooFew, Fingerprint.isEmpty, Fingerprint.size, Fingerprint.empty, hleaves]
  cases levels <;> rw [sameLocation, if_pos hfew]

/-- Within any number of levels, a covered fingerprint depends on no more than the one that
covers it. -/
theorem proves_sameLocation (p : Program) (policy : MatchPolicy) (levels : Nat)
    (a b : Fingerprint) (hb : b.WithoutLiterals p) :
    Proves p (sameLocation p policy levels a b) (a.DependsWithin p b) := by
  induction levels generalizing a b with
  | zero =>
    refine Proves.ite (fun _ => proves_false) fun _ => ?_
    exact steady_cutOff.ensures.mono fun _ hverdict htrue =>
      absurd (hverdict.symm.trans htrue) Bool.false_ne_true
  | succ levels ih =>
    exact Proves.ite (fun _ => proves_false) fun _ => proves_coverLeaves ih policy a hb

/-- What has the same shape has the same dependencies, within any number of levels. -/
theorem dependsWithin_of_sameShape {p : Program} {levels : Nat} {a b : Operand}
    (h : (sameShape p levels a b).verdict = true) : p.DependsWithin a b := by
  induction levels using Nat.strongRecOn generalizing a b with
  | ind levels ih =>
    rcases (sameShape_verdict_iff p levels a b).mp h with
      rfl | ⟨x, y, m, n, rfl, rfl, hx, hy, hmn, deeper, rfl, hparts⟩
    · exact fun _ => id
    · obtain ⟨hop, hmerge, hlength, _⟩ := (comparable_iff m n).mp hmn
      have hmerge' : n.isMerge = false := by simpa [Node.isMerge, hop] using hmerge
      refine dependsWithin_of_operands hx hmerge hy hmerge' (hop ▸ id) fun u hu => ?_
      obtain ⟨v, hv, hmem⟩ := exists_mem_zip hlength hu
      obtain ⟨i, hi⟩ := List.mem_iff_getElem?.mp hmem
      obtain ⟨hiu, hiv⟩ := List.getElem?_zip_eq_some.mp hi
      exact ⟨v, hv, ih deeper (Nat.lt_succ_self deeper) (hparts i u v hiu hiv)⟩

end Match

namespace Strategy

open Compare Program

/-- What one check covers by dominance has a condition that depends on no more than its own. -/
theorem proves_subsumed (s : Strategy) (p : Program) (candidate coverer : Check) :
    Proves p (s.subsumed p candidate coverer .dominance)
      (∃ a b, p.condition? candidate.branch = some a ∧ p.condition? coverer.branch = some b ∧
        p.DependsWithin a b) := by
  have hcounts : ¬ (Source.dominance = .coverage ∧ s.level.trustsCounts = true) := by simp
  have hindex : ∀ f, refine p candidate coverer .dominance f =
      pure (f, MatchPolicy.ofKind candidate.kind) := by
    intro f
    rw [refine, if_neg (by simp)]
  rw [subsumed, if_neg hcounts]
  refine Proves.ite (fun _ => ?_) fun _ => ?_
  · split
    · next a b ha hb =>
      refine (Match.steady_sameShape p s.maxDepth a b).ensures.mono fun _ hverdict htrue => ?_
      exact ⟨a, b, ha, hb, Match.dependsWithin_of_sameShape (hverdict.symm.trans htrue)⟩
    · exact proves_false
  · refine (ensures_sliceCheck _ candidate.branch).bind fun own hown => ?_
    rw [hindex, pure_bind]
    refine (ensures_sliceCheck _ coverer.branch).bind fun covering hcovering => ?_
    cases ha : p.condition? candidate.branch with
    | none =>
      rw [Match.sameLocation_of_eq_empty (.inl (by rw [hown, ha]; rfl))]
      exact proves_false
    | some a =>
      cases hb : p.condition? coverer.branch with
      | none =>
        rw [Match.sameLocation_of_eq_empty (.inr (by rw [hcovering, hb]; rfl))]
        exact proves_false
      | some b =>
        rw [ha] at hown
        rw [hb] at hcovering
        subst hown hcovering
        refine (Match.proves_sameLocation p _ s.maxDepth _ _
          (p.withoutLiterals_operandSlice _ b)).mono fun h => ⟨a, b, rfl, rfl, fun source hdep => ?_⟩
        exact dependsOn_operandSlice_iff.mp (h source (dependsOn_operandSlice_iff.mpr hdep))

/-- Whatever was compared before, at every level and to any depth, a check that makes another one
superfluous by dominance tests a condition that depends on every external and control merge that
the other one's condition depends on. -/
theorem dependsWithin_of_subsumed {s : Strategy} {p : Program} {candidate coverer : Check}
    {earlier : List Request}
    (h : (s.subsumed p candidate coverer .dominance
      (Request.sessionAfter p s.maxDepth earlier)).1 = true) :
    ∃ a b, p.condition? candidate.branch = some a ∧ p.condition? coverer.branch = some b ∧
      ∀ source, p.DependsOn a source → p.DependsOn b source :=
  (s.proves_subsumed p candidate coverer _
    (Request.faithful_sessionAfter p s.maxDepth earlier)).1 h

open Build in
/-- A loop counter, the control merge `⟨0⟩` of nought and its own successor, picks an element of an
array. The element is tested against a bound twice, the second time with something added. -/
def elementTests : Program :=
  let steps : Build Unit := do
    let main ← procedure "main"
    let head ← block main
    let body ← block main
    let done ← block main
    let array ← external "array"
    let bound ← external "bound"
    let slack ← external "slack"
    let counter ← operation head .controlMerge [.constant (.int 0), .node ⟨1⟩]
    let _ ← operation body (.generic "add") [.node counter, .constant (.int 1)]
    let place ← operation head .addressComputation [.external array, .node counter]
    let element ← operation head .memoryRead [.node place]
    let below ← operation head (.generic "lt") [.node element, .external bound]
    let _ ← branch head (.node below) body done
    let place ← operation body .addressComputation [.external array, .node counter]
    let element ← operation body .memoryRead [.node place]
    let sum ← operation body (.generic "add") [.node element, .external slack]
    let below ← operation body (.generic "lt") [.node sum, .external bound]
    let _ ← branch body (.node below) head done
  (steps.run.run { name := "element" }).2

/-- The second test of the element makes the first superfluous, after a slice was taken and a
comparison of shapes failed; both depend on the loop counter. -/
theorem elementTests_dependsWithin :
    ((⟨.l2, "indvars", 32⟩ : Strategy).subsumed elementTests ⟨⟨1⟩, ⟨5⟩, .sanitizer, .address⟩
      ⟨⟨2⟩, ⟨10⟩, .sanitizer, .address⟩ .dominance
      (Request.sessionAfter elementTests 32
        [.sliceCheck ⟨10⟩ .address, .sameShape (.node ⟨4⟩) (.node ⟨9⟩)])).1 = true ∧
    elementTests.DependsOn (.node ⟨4⟩) (.node ⟨0⟩) ∧
    ∃ a b, elementTests.condition? ⟨5⟩ = some a ∧ elementTests.condition? ⟨10⟩ = some b ∧
      ∀ source, elementTests.DependsOn a source → elementTests.DependsOn b source := by
  have hcovered : ((⟨.l2, "indvars", 32⟩ : Strategy).subsumed elementTests
      ⟨⟨1⟩, ⟨5⟩, .sanitizer, .address⟩ ⟨⟨2⟩, ⟨10⟩, .sanitizer, .address⟩ .dominance
      (Request.sessionAfter elementTests 32
        [.sliceCheck ⟨10⟩ .address, .sameShape (.node ⟨4⟩) (.node ⟨9⟩)])).1 = true := by
    decide +kernel
  refine ⟨hcovered, ?_, dependsWithin_of_subsumed hcovered⟩
  have hcounter : elementTests.DependsOn (.node ⟨0⟩) (.node ⟨0⟩) := .merge rfl rfl
  have hplace : elementTests.DependsOn (.node ⟨2⟩) (.node ⟨0⟩) :=
    .through rfl rfl (by decide) (List.mem_cons_of_mem _ List.mem_cons_self) hcounter
  have helement : elementTests.DependsOn (.node ⟨3⟩) (.node ⟨0⟩) :=
    .through rfl rfl (by decide) List.mem_cons_self hplace
  exact .through rfl rfl (by decide) List.mem_cons_self helement

end Strategy

end GuardElision
