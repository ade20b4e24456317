import GuardElision.Proofs.Match.Dependencies
import GuardElision.Proofs.Slice.Outside

/-!
# Comparisons do not see what no operand points at

Two programs that differ only at nodes that no operand points at cannot be told apart by
comparing checks whose branches are none of these nodes. The comparison looks at nothing but
slices of operands and the nodes at their leaves, and these are the same in both programs.
Started in one session, it therefore does step by step the same on both (`Compare.Coincides`).
-/

namespace GuardElision

/-- In every session that is faithful to one program, a step on another program does what a step on
the one does, and leaves a faithful session behind. -/
def Compare.Coincides (p : Program) {α : Type} (x y : Compare α) : Prop :=
  ∀ s : Session, s.Faithful p → y s = x s ∧ (x s).2.Faithful p

namespace Compare

variable {p : Program} {α β : Type}

theorem Steady.coincides {x : Compare α} (h : Steady p x) : Coincides p x x :=
  fun s hs => ⟨rfl, h.faithful s hs⟩

theorem Coincides.verdict_eq {x y : Compare α} (h : Coincides p x y) : y.verdict = x.verdict := by
  rw [verdict, verdict, (h {} (Session.faithful_fresh p)).1]

/-- The second steps have to coincide only on what the first one can find. -/
theorem Coincides.bind {x y : Compare α} {f g : α → Compare β} {found : α → Prop}
    (hxy : Coincides p x y) (hx : Ensures p x found)
    (hfg : ∀ a, found a → Coincides p (f a) (g a)) : Coincides p (x >>= f) (y >>= g) := by
  intro s hs
  obtain ⟨hsame, hfaithful⟩ := hxy s hs
  have hfound : found (x s).1 := (hx s hs).1
  have hstep : (y >>= g) s = g (x s).1 (x s).2 := by
    rw [← hsame]
    rfl
  rw [hstep]
  exact hfg _ hfound _ hfaithful

theorem Coincides.ite {c : Prop} [Decidable c] {x x' y y' : Compare α}
    (hx : c → Coincides p x x') (hy : ¬ c → Coincides p y y') :
    Coincides p (if c then x else y) (if c then x' else y') := by
  by_cases h : c
  · rw [if_pos h, if_pos h]
    exact hx h
  · rw [if_neg h, if_neg h]
    exact hy h

theorem Coincides.ensures {x y : Compare α} (h : Coincides p x y) : Ensures p x fun _ => True :=
  fun s hs => ⟨trivial, (h s hs).2⟩

theorem Coincides.allM {items : List α} {f g : α → Compare Bool}
    (h : ∀ a ∈ items, Coincides p (f a) (g a)) : Coincides p (items.allM f) (items.allM g) := by
  induction items with
  | nil => exact (steady_pure true).coincides
  | cons a rest ih =>
    have ha := h a List.mem_cons_self
    refine ha.bind ha.ensures fun verdict _ => ?_
    cases verdict with
    | false => exact (steady_pure false).coincides
    | true => exact ih fun b hb => h b (List.mem_cons_of_mem a hb)

theorem Coincides.anyM {items : List α} {f g : α → Compare Bool}
    (h : ∀ a ∈ items, Coincides p (f a) (g a)) : Coincides p (items.anyM f) (items.anyM g) := by
  induction items with
  | nil => exact (steady_pure false).coincides
  | cons a rest ih =>
    have ha := h a List.mem_cons_self
    refine ha.bind ha.ensures fun verdict _ => ?_
    cases verdict with
    | false => exact ih fun b hb => h b (List.mem_cons_of_mem a hb)
    | true => exact (steady_pure true).coincides

section Slices

variable {hidden : NodeId → Prop} {q : Program} (h : p.SameOutside hidden q) (policy : LeafPolicy)

include h

theorem coincides_slice {id : NodeId} (hid : ¬ hidden id) :
    Coincides p (slice p policy id) (slice q policy id) := by
  intro s hs
  refine ⟨?_, (steady_slice policy id).faithful s hs⟩
  simp only [slice, Slicer.slice, h.backwardSlice_eq hid]

theorem ensures_avoids_slice {id : NodeId} (hid : ¬ hidden id) :
    Ensures p (slice p policy id) (Fingerprint.Avoids hidden) :=
  (ensures_slice policy id).mono fun _ hfound => hfound ▸ h.avoids_backwardSlice hid

theorem coincides_sliceOperand {operand : Operand} (hoperand : operand.Avoids hidden) :
    Coincides p (sliceOperand p policy operand) (sliceOperand q policy operand) := by
  cases operand with
  | node id => exact coincides_slice h policy (hoperand id rfl)
  | external e => exact (steady_sliceOperand policy _).coincides
  | constant value => exact (steady_sliceOperand policy _).coincides

theorem ensures_avoids_sliceOperand {operand : Operand} (hoperand : operand.Avoids hidden) :
    Ensures p (sliceOperand p policy operand) (Fingerprint.Avoids hidden) :=
  (ensures_sliceOperand policy operand).mono fun _ hfound => hfound ▸ h.avoids_operandSlice hoperand

theorem coincides_sliceCheck {branch : NodeId} (hbranch : ¬ hidden branch) :
    Coincides p (sliceCheck p policy branch) (sliceCheck q policy branch) := by
  intro s hs
  refine ⟨?_, (steady_sliceCheck policy branch).faithful s hs⟩
  simp only [sliceCheck, Slicer.sliceCheck, h.condition?_eq hbranch]
  cases hcondition : p.condition? branch with
  | none => rfl
  | some condition =>
    exact (coincides_sliceOperand h policy (h.avoids_condition hcondition) s hs).1

theorem ensures_avoids_sliceCheck (branch : NodeId) :
    Ensures p (sliceCheck p policy branch) (Fingerprint.Avoids hidden) := by
  refine (ensures_sliceCheck policy branch).mono fun found hfound => ?_
  rw [hfound]
  cases hcondition : p.condition? branch with
  | none => exact Fingerprint.avoids_empty
  | some condition => exact h.avoids_operandSlice (h.avoids_condition hcondition)

end Slices

end Compare

namespace Match

open Compare

section Leaves

variable {hidden : NodeId → Prop} {p q : Program} (h : p.SameOutside hidden q)
  {deeper deeper' : Deeper} (hdeeper : ∀ a b : Fingerprint, a.Avoids hidden → b.Avoids hidden →
    Coincides p (deeper a b) (deeper' a b)) (policy : MatchPolicy)

include h hdeeper

theorem coincides_sameSlices {a b : NodeId} (ha : ¬ hidden a) (hb : ¬ hidden b) :
    Coincides p (sameSlices p policy deeper a b) (sameSlices q policy deeper' a b) := by
  refine (coincides_slice h _ ha).bind (ensures_avoids_slice h _ ha) fun fa hfa => ?_
  refine (coincides_slice h _ hb).bind (ensures_avoids_slice h _ hb) fun fb hfb => ?_
  exact hdeeper fa fb hfa hfb

private theorem coincides_sameOrSlices {x y : NodeId} (hx : Operand.Avoids hidden (.node x))
    (hy : Operand.Avoids hidden (.node y)) :
    Coincides p (if x = y then pure true else sameSlices p policy deeper x y)
      (if x = y then pure true else sameSlices q policy deeper' x y) :=
  Coincides.ite (fun _ => (steady_pure true).coincides)
    fun _ => coincides_sameSlices h hdeeper policy (hx x rfl) (hy y rfl)

theorem coincides_sameRead {a b : Node} (ha : ∀ u ∈ a.operands, u.Avoids hidden)
    (hb : ∀ u ∈ b.operands, u.Avoids hidden) :
    Coincides p (sameRead p policy deeper a b) (sameRead q policy deeper' a b) := by
  unfold sameRead
  split
  · next x y hxs hys =>
    rw [hxs] at ha
    rw [hys] at hb
    exact coincides_sameOrSlices h hdeeper policy (ha _ List.mem_cons_self)
      (hb _ List.mem_cons_self)
  · exact (steady_pure false).coincides
  · next x y _ hxs hys =>
    rw [hxs] at ha
    rw [hys] at hb
    have hx := ha x List.mem_cons_self
    have hy : ¬ hidden y := hb _ List.mem_cons_self y rfl
    refine (coincides_sliceOperand h _ hx).bind (ensures_avoids_sliceOperand h _ hx)
      fun fa hfa => ?_
    refine (coincides_slice h _ hy).bind (ensures_avoids_slice h _ hy) fun fb hfb => ?_
    exact hdeeper fa fb hfa hfb
  · exact (steady_pure _).coincides
  · exact (steady_pure false).coincides

theorem coincides_sameAddressPart {x y : Operand} (hx : x.Avoids hidden) (hy : y.Avoids hidden) :
    Coincides p (sameAddressPart p policy deeper x y) (sameAddressPart q policy deeper' x y) := by
  unfold sameAddressPart
  split
  · exact coincides_sameOrSlices h hdeeper policy hx hy
  · exact (steady_pure _).coincides
  · next y =>
    have hslice := coincides_slice h policy.leaves (hy y rfl)
    exact hslice.bind hslice.ensures fun fb _ => (steady_pure _).coincides
  · exact (steady_pure _).coincides

theorem coincides_sameGenericPart {x y : Operand} (hx : x.Avoids hidden) (hy : y.Avoids hidden) :
    Coincides p (sameGenericPart p policy deeper x y) (sameGenericPart q policy deeper' x y) := by
  unfold sameGenericPart
  split
  · exact coincides_sameOrSlices h hdeeper policy hx hy
  · exact (steady_pure _).coincides

omit h hdeeper in
theorem coincides_samePlaces {part part' : Operand → Operand → Compare Bool}
    (hpart : ∀ x y : Operand, x.Avoids hidden → y.Avoids hidden →
      Coincides p (part x y) (part' x y)) {a b : List Operand}
    (ha : ∀ u ∈ a, u.Avoids hidden) (hb : ∀ u ∈ b, u.Avoids hidden) :
    Coincides p (samePlaces part a b) (samePlaces part' a b) := by
  refine Coincides.allM fun pair hpair => ?_
  obtain ⟨hx, hy⟩ := List.of_mem_zip hpair
  exact hpart pair.1 pair.2 (ha _ hx) (hb _ hy)

theorem coincides_sameGeneric {a b : Node} (ha : ∀ u ∈ a.operands, u.Avoids hidden)
    (hb : ∀ u ∈ b.operands, u.Avoids hidden) :
    Coincides p (sameGeneric p policy deeper a b) (sameGeneric q policy deeper' a b) := by
  unfold sameGeneric
  split
  · exact (steady_pure _).coincides
  · exact coincides_samePlaces (fun x y => coincides_sameGenericPart h hdeeper policy) ha hb

theorem coincides_matchInside {leaf : Leaf} (hleaf : leaf.operand.Avoids hidden) {b : Node}
    (hb : ∀ u ∈ b.operands, u.Avoids hidden) :
    Coincides p (matchInside p policy deeper leaf b) (matchInside q policy deeper' leaf b) := by
  unfold matchInside
  refine Coincides.ite (fun _ => (steady_pure false).coincides) fun _ => ?_
  refine Coincides.anyM fun operand hmem => ?_
  have hoperand := hb operand (List.mem_filter.mp hmem).1
  refine (coincides_sliceOperand h _ hoperand).bind (ensures_avoids_sliceOperand h _ hoperand)
    fun fb hfb => ?_
  exact hdeeper _ fb (Fingerprint.avoids_singleton hleaf) hfb

theorem coincides_sameNode {idA : NodeId} (hid : ¬ hidden idA) {a b : Node}
    (ha : ∀ u ∈ a.operands, u.Avoids hidden) (hb : ∀ u ∈ b.operands, u.Avoids hidden) :
    Coincides p (sameNode p policy deeper idA a b) (sameNode q policy deeper' idA a b) := by
  have hleaf : (Leaf.node idA).operand.Avoids hidden := by
    intro id heq
    obtain rfl := Operand.node.inj heq
    exact hid
  have hinside := coincides_matchInside h hdeeper policy hleaf hb
  unfold sameNode
  split
  · exact (steady_pure false).coincides
  · exact coincides_sameRead h hdeeper policy ha hb
  · refine Coincides.ite (fun _ => ?_) fun _ => hinside
    exact coincides_samePlaces (fun x y => coincides_sameAddressPart h hdeeper policy) ha hb
  · exact Coincides.ite (fun _ => coincides_sameGeneric h hdeeper policy ha hb) fun _ => hinside
  · exact hinside

theorem coincides_sameLeaf {a b : Leaf} (ha : a.operand.Avoids hidden)
    (hb : b.operand.Avoids hidden) :
    Coincides p (sameLeaf p policy deeper a b) (sameLeaf q policy deeper' a b) := by
  unfold sameLeaf
  refine Coincides.ite (fun _ => (steady_pure true).coincides) fun _ => ?_
  cases b with
  | external e => exact (steady_pure false).coincides
  | node idB =>
    dsimp only
    rw [h.node?_eq idB (hb idB rfl)]
    cases hnodeB : p.node? idB with
    | none => exact (steady_pure false).coincides
    | some nodeB =>
      have hoperandsB := h.unseen idB nodeB hnodeB
      cases a with
      | external e => exact coincides_matchInside h hdeeper policy ha hoperandsB
      | node idA =>
        dsimp only
        rw [h.node?_eq idA (ha idA rfl)]
        cases hnodeA : p.node? idA with
        | none => exact (steady_pure false).coincides
        | some nodeA =>
          exact coincides_sameNode h hdeeper policy (ha idA rfl) (h.unseen idA nodeA hnodeA)
            hoperandsB

theorem coincides_coverLeaves {a b : Fingerprint} (ha : a.Avoids hidden) (hb : b.Avoids hidden) :
    Coincides p (coverLeaves p policy deeper a b) (coverLeaves q policy deeper' a b) :=
  Coincides.allM fun x hx => Coincides.anyM fun y hy =>
    coincides_sameLeaf h hdeeper policy (ha x hx) (hb y hy)

end Leaves

variable {hidden : NodeId → Prop} {p q : Program} (h : p.SameOutside hidden q)

include h

theorem coincides_sameLocation (policy : MatchPolicy) (levels : Nat) {a b : Fingerprint}
    (ha : a.Avoids hidden) (hb : b.Avoids hidden) :
    Coincides p (sameLocation p policy levels a b) (sameLocation q policy levels a b) := by
  induction levels generalizing a b with
  | zero => exact (steady_sameLocation p policy 0 a b).coincides
  | succ levels ih =>
    exact Coincides.ite (fun _ => (steady_pure false).coincides)
      fun _ => coincides_coverLeaves h (fun _ _ => ih) policy ha hb

theorem coincides_sameShape (levels : Nat) {a b : Operand} (ha : a.Avoids hidden)
    (hb : b.Avoids hidden) : Coincides p (sameShape p levels a b) (sameShape q levels a b) := by
  induction levels using Nat.strongRecOn generalizing a b with
  | ind levels ih =>
    rw [sameShape.eq_def, sameShape.eq_def q]
    refine Coincides.ite (fun _ => (steady_pure true).coincides) fun _ => ?_
    split
    · next x y _ =>
      rw [h.node?_eq x (ha x rfl), h.node?_eq y (hb y rfl)]
      split
      · next m n hm hn =>
        refine Coincides.ite (fun _ => ?_) fun _ => (steady_pure false).coincides
        cases levels with
        | zero => exact steady_cutOff.coincides
        | succ deeper =>
          refine Coincides.allM fun pair hpair => ?_
          obtain ⟨hu, hv⟩ := List.of_mem_zip hpair
          exact ih deeper (Nat.lt_succ_self deeper) (h.unseen x m hm _ hu) (h.unseen y n hn _ hv)
      · exact (steady_pure false).coincides
    · exact (steady_pure false).coincides

end Match

namespace Strategy

open Compare

variable {hidden : NodeId → Prop} {p q : Program} (h : p.SameOutside hidden q)

include h

/-- A guard of an induction variable is one in both programs. -/
theorem isInductionGuard_eq (s : Strategy) {c : Check} (hc : ¬ hidden c.branch) :
    s.isInductionGuard q c = s.isInductionGuard p c := by
  rw [isInductionGuard, isInductionGuard, Match.isInductionGuard, Match.isInductionGuard,
    h.condition?_eq hc]
  cases hcondition : p.condition? c.branch with
  | none => rfl
  | some condition =>
    dsimp only
    rw [h.mergeFrontier_eq (h.avoids_condition hcondition)]
    split
    · next merge hmerge =>
      have hfrontier : merge ∈ p.mergeFrontier condition := hmerge ▸ List.mem_cons_self
      rw [h.node?_eq merge (h.not_hidden_of_mem_mergeFrontier
        (h.avoids_condition hcondition) hfrontier)]
    · rfl

private theorem indexOperands?_eq {f : Fingerprint} (hf : f.Avoids hidden) :
    indexOperands? q f = indexOperands? p f := by
  unfold indexOperands?
  cases hsingle : f.singleNode? with
  | none => rfl
  | some id =>
    have hid : ¬ hidden id := hf _ (Fingerprint.mem_of_singleNode? hsingle) id rfl
    simp only [Option.bind_eq_bind, Option.bind_some, h.node?_eq id hid]

private theorem avoids_of_indexOperands? {f : Fingerprint} {operands : List Operand}
    (hindex : indexOperands? p f = some operands) : ∀ u ∈ operands, u.Avoids hidden := by
  obtain ⟨id, _, hrest⟩ := Option.bind_eq_some_iff.mp hindex
  obtain ⟨n, hn, hrest⟩ := Option.bind_eq_some_iff.mp hrest
  obtain ⟨_, hdrop⟩ := Option.ite_none_right_eq_some.mp hrest
  obtain rfl := Option.some.inj hdrop
  exact fun u hu => h.unseen id n hn u (List.mem_of_mem_drop hu)

private theorem coincides_sliceAll {operands : List Operand}
    (hoperands : ∀ u ∈ operands, u.Avoids hidden) :
    Coincides p (sliceAll p operands) (sliceAll q operands) ∧
      Ensures p (sliceAll p operands) (Fingerprint.Avoids hidden) := by
  have hfold : ∀ start : Fingerprint, start.Avoids hidden →
      Coincides p
        (operands.foldlM (fun found u => return found.union (← sliceOperand p .value u)) start)
        (operands.foldlM (fun found u => return found.union (← sliceOperand q .value u)) start) ∧
      Ensures p
        (operands.foldlM (fun found u => return found.union (← sliceOperand p .value u)) start)
        (Fingerprint.Avoids hidden) := by
    induction operands with
    | nil => exact fun start hstart => ⟨(steady_pure start).coincides, fun s hs => ⟨hstart, hs⟩⟩
    | cons u rest ih =>
      intro start hstart
      have hu := hoperands u List.mem_cons_self
      have hrest := ih fun v hv => hoperands v (List.mem_cons_of_mem u hv)
      have hslice := ensures_avoids_sliceOperand h .value hu
      have hround : Ensures p (do return start.union (← sliceOperand p .value u))
          (Fingerprint.Avoids hidden) :=
        hslice.bind fun found hfound s hs => ⟨hstart.union hfound, hs⟩
      have hsame : Coincides p (do return start.union (← sliceOperand p .value u))
          (do return start.union (← sliceOperand q .value u)) :=
        (coincides_sliceOperand h .value hu).bind hslice
          fun found _ => (steady_pure (start.union found)).coincides
      exact ⟨hsame.bind hround fun found hfound => (hrest found hfound).1,
        hround.bind fun found hfound => (hrest found hfound).2⟩
  exact hfold .empty Fingerprint.avoids_empty

private theorem coincides_refine (candidate coverer : Check) (source : Source) {f : Fingerprint}
    (hf : f.Avoids hidden) : Coincides p (refine p candidate coverer source f)
      (refine q candidate coverer source f) ∧
    Ensures p (refine p candidate coverer source f) fun found => found.1.Avoids hidden := by
  unfold refine
  split
  · rw [indexOperands?_eq h hf]
    cases hindex : indexOperands? p f with
    | none => exact ⟨(steady_pure _).coincides, fun s hs => ⟨hf, hs⟩⟩
    | some operands =>
      obtain ⟨hsame, havoids⟩ := coincides_sliceAll h (avoids_of_indexOperands? h hindex)
      exact ⟨hsame.bind havoids fun _ _ => (steady_pure _).coincides,
        havoids.bind fun _ hfound s hs => ⟨hfound, hs⟩⟩
  · exact ⟨(steady_pure _).coincides, fun s hs => ⟨hf, hs⟩⟩

/-- Whether one check makes another superfluous is the same in both programs. -/
theorem verdict_subsumed_eq (s : Strategy) {candidate coverer : Check}
    (hcandidate : ¬ hidden candidate.branch) (hcoverer : ¬ hidden coverer.branch)
    (source : Source) : (s.subsumed q candidate coverer source).verdict =
      (s.subsumed p candidate coverer source).verdict := by
  refine Coincides.verdict_eq (p := p) ?_
  unfold subsumed
  refine Coincides.ite (fun _ => (steady_pure true).coincides) fun _ => ?_
  refine Coincides.ite (fun _ => ?_) fun _ => ?_
  · rw [h.condition?_eq hcandidate, h.condition?_eq hcoverer]
    split
    · next a b ha hb =>
      exact Match.coincides_sameShape h _ (h.avoids_condition ha) (h.avoids_condition hb)
    · exact (steady_pure false).coincides
  · refine (coincides_sliceCheck h _ hcandidate).bind (ensures_avoids_sliceCheck h _ _)
      fun own hown => ?_
    obtain ⟨hsame, hwanted⟩ := coincides_refine h candidate coverer source hown
    refine hsame.bind hwanted fun found hfound => ?_
    refine (coincides_sliceCheck h _ hcoverer).bind (ensures_avoids_sliceCheck h _ _)
      fun covering hcovering => ?_
    exact Match.coincides_sameLocation h _ _ hfound hcovering

end Strategy

end GuardElision
