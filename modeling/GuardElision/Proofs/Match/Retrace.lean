import GuardElision.Proofs.Match.Covers
import GuardElision.Proofs.Match.Dependencies
import GuardElision.Proofs.Match.InStep

/-!
# Comparing fingerprints where shapes were compared

A comparison of shapes pairs two conditions operation by operation; a comparison of fingerprints
looks at their leaves only, asks for leaves enough on the covering side, and has its own rules for
two leaves. It finds again what the comparison of shapes found, one step into the operands of a leaf
for one level of the fingerprints, unless it gets stuck: there are too few leaves, or an unmatched
leaf stands at the place of one that it cannot be compared with. `stuck` says exactly when this is,
also for the comparison that looks at the index of an address alone, where an external may be one
level out of reach.
-/

namespace GuardElision

namespace Match

open Compare Program

/-- Whether two operations of the same shape cannot be matched as leaves: branches are not compared
by their operands, reads are only if they have one operand, and different operands at the same place
may fail to match in turn. -/
def partsStuck (deeper : Operand → Operand → Bool) (m n : Node) : Bool :=
  m.opcode == .condBranch || m.opcode == .memoryRead && m.operands.length != 1 ||
    (m.operands.zip n.operands).any fun (u, v) => u != v && deeper u v

/-- Whether a comparison of two fingerprints gets stuck, given which different leaves stand at the
same place: there are too few leaves, or an external is missing and there is no level left to look
for it, or an unmatched leaf stands at the place of one that it is not compared with, or is compared
with in vain because, one level further down, a comparison of their operands gets stuck. -/
def stuck (p : Program) (policy : MatchPolicy) :
    Nat → Fingerprint → Fingerprint → List (NodeId × NodeId) → Bool
  | 0, f, g, _ => tooFew f g
  | levels + 1, f, g, places =>
    tooFew f g ||
      levels == 0 && f.leaves.any (fun leaf => leaf.node?.isNone && !g.contains leaf) ||
      places.any fun (x, y) =>
        f.contains (.node x) &&
          !(sameLocation p policy (levels + 1) (.singleton (.node x)) g).verdict &&
          match p.node? x, p.node? y with
          | some m, some n => partsStuck (fun u v => stuck p policy levels
              (p.operandSlice policy.leaves u) (p.operandSlice policy.leaves v)
              (leafPairs p policy.leaves levels u v)) m n
          | _, _ => false

section Leaves

variable {p : Program} {policy : MatchPolicy} {deeper : Deeper}

/-- Two operands are the same, or operations whose slices match. -/
def PartMatches (p : Program) (policy : MatchPolicy) (deeper : Deeper) (u v : Operand) : Prop :=
  u = v ∨ ∃ x y, u = .node x ∧ v = .node y ∧ (sameSlices p policy deeper x y).verdict = true

/-- Operations whose slices match are matched as soon as they are compared. -/
private theorem verdict_sameOrSlices {x y : NodeId}
    (h : (sameSlices p policy deeper x y).verdict = true) :
    (if x = y then pure true
      else sameSlices p policy deeper x y : Compare Bool).verdict = true := by
  split
  · rfl
  · exact h

theorem PartMatches.sameGenericPart {u v : Operand} (h : PartMatches p policy deeper u v) :
    (sameGenericPart p policy deeper u v).verdict = true := by
  rcases h with rfl | ⟨x, y, rfl, rfl, hslices⟩
  · unfold Match.sameGenericPart
    split
    · rw [if_pos rfl]
      rfl
    · exact beq_self_eq_true u
  · exact verdict_sameOrSlices hslices

theorem PartMatches.sameAddressPart {u v : Operand} (h : PartMatches p policy deeper u v) :
    (sameAddressPart p policy deeper u v).verdict = true := by
  rcases h with rfl | ⟨x, y, rfl, rfl, hslices⟩
  · cases u with
    | node x =>
      unfold Match.sameAddressPart
      dsimp only
      rw [if_pos rfl]
      rfl
    | external e => exact beq_self_eq_true _
    | constant value =>
      cases value with
      | int n => exact decide_eq_true (UInt64.le_refl n)
      | bool b => exact beq_self_eq_true _
      | symbol name => exact beq_self_eq_true _
  · exact verdict_sameOrSlices hslices

theorem PartMatches.sameRead {m n : Node} {u v : Operand} (hm : m.operands = [u])
    (hn : n.operands = [v]) (h : PartMatches p policy deeper u v) :
    (sameRead p policy deeper m n).verdict = true := by
  unfold Match.sameRead
  rw [hm, hn]
  rcases h with rfl | ⟨x, y, rfl, rfl, hslices⟩
  · cases u with
    | node x =>
      dsimp only
      rw [if_pos rfl]
      rfl
    | external e => exact beq_self_eq_true _
    | constant value => exact beq_self_eq_true _
  · exact verdict_sameOrSlices hslices

theorem samePlaces_of_forall {part : Operand → Operand → Compare Bool} {a b : List Operand}
    (hpart : ∀ u v, Steady p (part u v))
    (h : ∀ pair ∈ a.zip b, (part pair.1 pair.2).verdict = true) :
    (samePlaces part a b).verdict = true := by
  have hall : (samePlaces part a b).verdict =
      (a.zip b).all fun pair => (part pair.1 pair.2).verdict :=
    verdict_allM fun pair => hpart pair.1 pair.2
  rw [hall, List.all_eq_true]
  exact h

variable (hdeeper : ∀ a b, Steady p (deeper a b))

include hdeeper

/-- Comparable operations whose operands match place by place are matched, if there is a rule for
them that looks at their operands. -/
theorem sameNode_of_parts {x : NodeId} {m n : Node} (hmn : comparable m n = true)
    (hbranch : m.opcode ≠ .condBranch) (hconstant : m.opcode ≠ .constant)
    (hread : m.opcode = .memoryRead → m.operands.length = 1)
    (hgeneric : ∀ name, m.opcode = .generic name → m.operands = n.operands)
    (hparts : ∀ pair ∈ m.operands.zip n.operands, PartMatches p policy deeper pair.1 pair.2) :
    (sameNode p policy deeper x m n).verdict = true := by
  obtain ⟨hop, hmerge, hlength, _⟩ := (comparable_iff m n).mp hmn
  unfold sameNode
  rw [← hop]
  cases hopcode : m.opcode with
  | controlMerge => simp [Node.isMerge, hopcode] at hmerge
  | condBranch => exact absurd hopcode hbranch
  | constant => exact absurd hopcode hconstant
  | memoryRead =>
    obtain ⟨u, hu⟩ := List.length_eq_one_iff.mp (hread hopcode)
    obtain ⟨v, hv⟩ := List.length_eq_one_iff.mp (hlength ▸ hread hopcode)
    refine PartMatches.sameRead hu hv (hparts (u, v) ?_)
    rw [hu, hv]
    exact List.mem_singleton.mpr rfl
  | addressComputation =>
    dsimp only
    rw [if_pos hlength]
    exact samePlaces_of_forall (steady_sameAddressPart hdeeper policy) fun pair hpair =>
      (hparts pair hpair).sameAddressPart
  | generic name =>
    dsimp only
    rw [if_pos ⟨rfl, hlength⟩]
    unfold sameGeneric
    split
    · exact beq_iff_eq.mpr (hgeneric name hopcode)
    · exact samePlaces_of_forall (steady_sameGenericPart hdeeper policy) fun pair hpair =>
        (hparts pair hpair).sameGenericPart

end Leaves

section Slices

variable {p : Program} {policy : MatchPolicy} {levels : Nat}

/-- Every leaf is matched by itself. -/
theorem sameLeaf_self (deeper : Deeper) (leaf : Leaf) :
    (sameLeaf p policy deeper leaf leaf).verdict = true := by
  unfold sameLeaf
  rw [if_pos rfl]
  rfl

/-- A single leaf is covered when some leaf matches it. -/
theorem sameLocation_singleton_iff {leaf : Leaf} {g : Fingerprint} :
    (sameLocation p policy (levels + 1) (.singleton leaf) g).verdict = true ↔
      ∃ b ∈ g, (sameLeaf p policy (sameLocation p policy levels) leaf b).verdict = true := by
  rw [sameLocation_succ_iff]
  constructor
  · rintro ⟨_, hall⟩
    exact hall leaf (Fingerprint.mem_singleton.mpr rfl)
  · rintro ⟨b, hb, hmatch⟩
    refine ⟨tooFew_eq_false_iff.mpr ⟨List.cons_ne_nil leaf [], List.length_pos_of_mem hb⟩, ?_⟩
    intro a ha
    obtain rfl := Fingerprint.mem_singleton.mp ha
    exact ⟨b, hb, hmatch⟩

/-- A fingerprint is covered when there are leaves enough and each of its leaves is covered. -/
theorem sameLocation_iff_singletons {f g : Fingerprint} :
    (sameLocation p policy (levels + 1) f g).verdict = true ↔ tooFew f g = false ∧
      ∀ leaf ∈ f, (sameLocation p policy (levels + 1) (.singleton leaf) g).verdict = true := by
  refine sameLocation_succ_iff.trans (and_congr_right fun _ => forall₂_congr fun leaf _ => ?_)
  exact sameLocation_singleton_iff.symm

/-- What it means to be stuck, case by case. -/
theorem stuck_succ_iff {f g : Fingerprint} {places : List (NodeId × NodeId)} :
    stuck p policy (levels + 1) f g places = true ↔ tooFew f g = true ∨
      (levels = 0 ∧ ∃ e, .external e ∈ f ∧ .external e ∉ g) ∨
      ∃ x y m n, (x, y) ∈ places ∧ .node x ∈ f ∧ p.node? x = some m ∧ p.node? y = some n ∧
        (sameLocation p policy (levels + 1) (.singleton (.node x)) g).verdict = false ∧
        partsStuck (fun u v => stuck p policy levels (p.operandSlice policy.leaves u)
          (p.operandSlice policy.leaves v) (leafPairs p policy.leaves levels u v)) m n = true := by
  have hmem : ∀ {k : Fingerprint} {leaf : Leaf}, k.contains leaf = true ↔ leaf ∈ k :=
    List.contains_iff_mem
  rw [stuck, Bool.or_eq_true, Bool.or_eq_true, or_assoc]
  refine or_congr_right (or_congr ?_ ?_)
  · rw [Bool.and_eq_true, beq_iff_eq, List.any_eq_true]
    refine and_congr_right fun _ => ?_
    constructor
    · rintro ⟨leaf, hleaf, h⟩
      rw [Bool.and_eq_true, Bool.not_eq_true', ← Bool.not_eq_true, hmem] at h
      cases leaf with
      | node x => cases h.1
      | external e => exact ⟨e, hleaf, h.2⟩
    · rintro ⟨e, he, hmissing⟩
      refine ⟨.external e, he, ?_⟩
      rw [Bool.and_eq_true, Bool.not_eq_true', ← Bool.not_eq_true, hmem]
      exact ⟨rfl, hmissing⟩
  · rw [List.any_eq_true]
    constructor
    · rintro ⟨⟨x, y⟩, hplace, h⟩
      rw [Bool.and_eq_true, Bool.and_eq_true, hmem, Bool.not_eq_true'] at h
      obtain ⟨⟨hx, hno⟩, h⟩ := h
      split at h
      · next m n hm hn => exact ⟨x, y, m, n, hplace, hx, hm, hn, hno, h⟩
      · cases h
    · rintro ⟨x, y, m, n, hplace, hx, hm, hn, hno, h⟩
      refine ⟨(x, y), hplace, ?_⟩
      rw [Bool.and_eq_true, Bool.and_eq_true, hmem, Bool.not_eq_true', hm, hn]
      exact ⟨⟨hx, hno⟩, h⟩

/-- A comparison that gets stuck fails. -/
theorem sameLocation_of_stuck {f g : Fingerprint} {places : List (NodeId × NodeId)}
    (h : stuck p policy levels f g places = true) :
    (sameLocation p policy levels f g).verdict = false := by
  refine Bool.eq_false_iff.mpr fun hcovers => ?_
  cases levels with
  | zero => exact not_coversWithin_zero hcovers
  | succ levels =>
    obtain ⟨hfew, hall⟩ := sameLocation_iff_singletons.mp hcovers
    rcases stuck_succ_iff.mp h with htoo | ⟨rfl, e, he, hmissing⟩ |
      ⟨x, _, _, _, _, hx, _, _, hno, _⟩
    · exact Bool.false_ne_true (hfew.symm.trans htoo)
    · -- without a level left an external is matched by nothing but itself
      obtain ⟨b, hb, hmatch⟩ := sameLocation_singleton_iff.mp (hall _ he)
      cases (sameLeaf_iff (steady_sameLocation p policy 0) (stopsAt_external e)).mp hmatch with
      | same => exact hmissing hb
      | inside _ _ hinside =>
        obtain ⟨_, _, _, hcovers⟩ := hinside
        exact not_coversWithin_zero hcovers
    · exact Bool.false_ne_true (hno.symm.trans (hall _ hx))

/-- A generic operation that is a leaf has no operation among its operands, so another one of the
same shape has the same operands. -/
private theorem Paired.operands_eq {leaves : LeafPolicy} {a b : Operand} {x y : NodeId} {m n : Node}
    (h : Paired p leaves levels a b x y m n) {name : String} (hop : m.opcode = .generic name) :
    m.operands = n.operands := by
  obtain ⟨_, _, hlength, _⟩ := (comparable_iff m n).mp h.comparable
  have hleaf := h.isLeaf
  simp only [LeafPolicy.isLeaf, hop, List.isEmpty_iff, Node.nodeOperands,
    List.filterMap_eq_nil_iff] at hleaf
  obtain ⟨deeper, _, hparts⟩ := h.parts
  apply List.ext_getElem hlength
  intro i hi hi'
  refine Decidable.byContradiction fun hne => ?_
  have hshape := hparts i _ _ (List.getElem?_eq_getElem hi) (List.getElem?_eq_getElem hi')
  obtain ⟨u, v, hu, _⟩ := nodes_of_sameShape hshape hne
  have hnode := hleaf _ (List.getElem_mem hi)
  rw [hu] at hnode
  cases hnode

/-- Where it has a comparison succeed that does not get stuck, being stuck is the only reason to
fail. -/
theorem sameLocation_iff_not_stuck {f g : Fingerprint} {places : List (NodeId × NodeId)}
    (h : stuck p policy levels f g places = false →
      (sameLocation p policy levels f g).verdict = true) :
    (sameLocation p policy levels f g).verdict = true ↔
      stuck p policy levels f g places = false := by
  refine ⟨fun hcovers => Bool.eq_false_iff.mpr fun hstuck => ?_, h⟩
  exact Bool.false_ne_true ((sameLocation_of_stuck hstuck).symm.trans hcovers)

/-- At some level, different operands of the same shape are covered unless the comparison of their
fingerprints gets stuck. -/
def Retraces (p : Program) (policy : MatchPolicy) (levels : Nat) : Prop :=
  ∀ u v, u ≠ v → (sameShape p levels u v).verdict = true →
    stuck p policy levels (p.operandSlice policy.leaves u) (p.operandSlice policy.leaves v)
      (leafPairs p policy.leaves levels u v) = false →
    (sameLocation p policy levels (p.operandSlice policy.leaves u)
      (p.operandSlice policy.leaves v)).verdict = true

/-- Different leaves of the same shape at the same place match unless they get stuck. -/
theorem Paired.sameLeaf {a b : Operand} {x y : NodeId} {m n : Node}
    (h : Paired p policy.leaves (levels + 1) a b x y m n)
    (hstuck : partsStuck (fun u v => stuck p policy levels (p.operandSlice policy.leaves u)
      (p.operandSlice policy.leaves v) (leafPairs p policy.leaves levels u v)) m n = false)
    (hdeeper : Retraces p policy levels) :
    (Match.sameLeaf p policy (sameLocation p policy levels) (.node x) (.node y)).verdict =
      true := by
  have hsteady := steady_sameLocation p policy levels
  simp only [partsStuck, Bool.or_eq_false_iff, Bool.and_eq_false_iff, beq_eq_false_iff_ne,
    bne_eq_false_iff_eq, List.any_eq_false, Bool.not_eq_true] at hstuck
  obtain ⟨⟨hbranch, hread⟩, hoperands⟩ := hstuck
  have hne : Leaf.node x ≠ Leaf.node y := fun heq => h.ne (Leaf.node.inj heq)
  unfold Match.sameLeaf
  rw [if_neg hne]
  dsimp only
  rw [h.right, h.left]
  refine sameNode_of_parts hsteady h.comparable hbranch h.opcode_ne
    (fun hop => hread.resolve_left fun hno => hno hop) (fun _ hop => h.operands_eq hop) ?_
  rintro ⟨u, v⟩ hpair
  by_cases huv : u = v
  · exact .inl huv
  · have hshape := h.parts.sameShape_of_mem_zip hpair
    obtain ⟨x', y', rfl, rfl⟩ := nodes_of_sameShape hshape huv
    refine .inr ⟨x', y', rfl, rfl, ?_⟩
    have hgoes := (hoperands _ hpair).resolve_left huv
    exact (sameSlices_iff hsteady x' y').mpr (hdeeper _ _ huv hshape hgoes)

/-- A leaf that stands at the place of another one is covered unless it gets stuck there. -/
theorem Paired.covered {a b : Operand} {x y : NodeId} {m n : Node} {f g : Fingerprint}
    {places : List (NodeId × NodeId)} (h : Paired p policy.leaves (levels + 1) a b x y m n)
    (hstuck : stuck p policy (levels + 1) f g places = false)
    (hdeeper : Retraces p policy levels) (hplace : (x, y) ∈ places) (hx : .node x ∈ f)
    (hy : .node y ∈ g) :
    (sameLocation p policy (levels + 1) (.singleton (.node x)) g).verdict = true := by
  refine eq_true_of_ne_false fun hno => ?_
  have hparts : partsStuck (fun u v => stuck p policy levels (p.operandSlice policy.leaves u)
      (p.operandSlice policy.leaves v) (leafPairs p policy.leaves levels u v)) m n = false := by
    refine Bool.eq_false_iff.mpr fun hparts => Bool.eq_false_iff.mp hstuck ?_
    exact stuck_succ_iff.mpr
      (.inr (.inr ⟨x, y, m, n, hplace, hx, h.left, h.right, hno, hparts⟩))
  have hmatch := h.sameLeaf hparts hdeeper
  rw [sameLocation_singleton_iff.mpr ⟨_, hy, hmatch⟩] at hno
  cases hno

/-- Within at least one level, the fingerprint of an operand is covered by that of every operand of
the same shape, unless the comparison gets stuck. -/
theorem sameLocation_of_sameShape {a b : Operand} (hlevels : 1 ≤ levels)
    (h : (sameShape p levels a b).verdict = true)
    (hstuck : stuck p policy levels (p.operandSlice policy.leaves a)
      (p.operandSlice policy.leaves b) (leafPairs p policy.leaves levels a b) = false) :
    (sameLocation p policy levels (p.operandSlice policy.leaves a)
      (p.operandSlice policy.leaves b)).verdict = true := by
  induction levels generalizing a b with
  | zero => omega
  | succ levels ih =>
    have hdeeper : Retraces p policy levels :=
      fun u v huv hshape => ih (one_le_of_sameShape hshape huv) hshape
    have hfew : tooFew (p.operandSlice policy.leaves a) (p.operandSlice policy.leaves b) = false :=
      Bool.eq_false_iff.mpr fun hfew => Bool.eq_false_iff.mp hstuck (stuck_succ_iff.mpr (.inl hfew))
    refine sameLocation_iff_singletons.mpr ⟨hfew, fun leaf hleaf => ?_⟩
    rcases mem_or_paired h hleaf with hmem | ⟨x, y, m, n, rfl, hpaired⟩
    · exact sameLocation_singleton_iff.mpr ⟨leaf, hmem, sameLeaf_self _ leaf⟩
    · exact hpaired.covered hstuck hdeeper hpaired.listed hleaf hpaired.covering

/-- What different operands of the same shape have for leaves can be retraced at every level. -/
theorem retraces (p : Program) (policy : MatchPolicy) (levels : Nat) : Retraces p policy levels :=
  fun _ _ huv hshape => sameLocation_of_sameShape (one_le_of_sameShape hshape huv) hshape

end Slices

end Match

namespace Program

variable {p : Program} {policy : LeafPolicy}

/-- The fingerprint of several operands together. -/
def operandsSlice (p : Program) (policy : LeafPolicy) (operands : List Operand) : Fingerprint :=
  operands.foldl (fun found operand => found.union (p.operandSlice policy operand)) .empty

theorem mem_operandsSlice_iff {operands : List Operand} {leaf : Leaf} :
    leaf ∈ p.operandsSlice policy operands ↔ ∃ u ∈ operands, leaf ∈ p.operandSlice policy u := by
  have hfold : ∀ start : Fingerprint,
      leaf ∈ operands.foldl
          (fun found operand => found.union (p.operandSlice policy operand)) start ↔
        leaf ∈ start ∨ ∃ u ∈ operands, leaf ∈ p.operandSlice policy u := by
    induction operands with
    | nil => simp
    | cons u rest ih =>
      intro start
      rw [List.foldl_cons, ih, Fingerprint.mem_union]
      simp only [List.mem_cons, exists_eq_or_imp]
      constructor
      · rintro ((h | h) | h)
        · exact .inr (.inl h)
        · exact .inl h
        · exact .inr (.inr h)
      · rintro (h | h | h)
        · exact .inl (.inr h)
        · exact .inl (.inl h)
        · exact .inr h
  rw [operandsSlice, hfold]
  exact ⟨fun h => h.resolve_left (Fingerprint.not_mem_empty leaf), .inr⟩

/-- Slicing by value goes on wherever slicing by address does, and further: what it finds behind a
leaf by address belongs to the slice by value. -/
theorem mem_value_of_mem_address {y : NodeId} {b : Operand} {leaf : Leaf}
    (hy : Leaf.node y ∈ p.operandSlice .address b)
    (hleaf : leaf ∈ p.operandSlice .value (.node y)) : leaf ∈ p.operandSlice .value b := by
  cases b with
  | constant value => exact absurd hy (Fingerprint.not_mem_empty _)
  | external e => cases Fingerprint.mem_singleton.mp hy
  | node root => exact mem_backwardSlice_value_iff.mpr ⟨.node y, hy, hleaf⟩

end Program

namespace Match

open Compare Program

/-- The different leaves by value that stand at the same place of the indices of two address
computations, which in turn stand at the same place of two operands. -/
def indexPairs (p : Program) (levels : Nat) (a b : Operand) : List (NodeId × NodeId) :=
  (leafPairs p .address levels a b).flatMap fun (x, y) =>
    match p.node? x, p.node? y with
    | some m, some n => ((m.operands.drop 1).zip (n.operands.drop 1)).flatMap fun (u, v) =>
        leafPairs p .value levels u v
    | _, _ => []

/-- An operand has no different leaves from itself. -/
theorem leafPairs_self (p : Program) (leaves : LeafPolicy) (levels : Nat) (a : Operand) :
    leafPairs p leaves levels a a = [] := by
  cases levels with
  | zero => rfl
  | succ levels => cases a <;> simp [leafPairs]

section Index

variable {p : Program} {operands : OperandMatch} {levels : Nat}

/-- An external is matched inside an operation that has it among its operands, if there is a level
left. -/
theorem sameLeaf_external {e : ExternalId} {y : NodeId} {n : Node} {policy : MatchPolicy}
    (hy : p.node? y = some n) (hmerge : n.isMerge = false) (he : .external e ∈ n.operands)
    (hlevels : 1 ≤ levels) :
    (sameLeaf p policy (sameLocation p policy levels) (.external e) (.node y)).verdict = true := by
  obtain ⟨deeper, rfl⟩ : ∃ deeper, levels = deeper + 1 := ⟨levels - 1, by omega⟩
  have hsteady := steady_sameLocation p policy (deeper + 1)
  refine (sameLeaf_iff hsteady (stopsAt_external e)).mpr
    (.inside hy nofun (.operand hmerge he rfl ?_))
  exact sameLocation_succ_iff.mpr ⟨rfl, fun leaf hleaf => ⟨leaf, hleaf, sameLeaf_self _ leaf⟩⟩

/-- An address computation that stands at the place of another one of the same shape, be it the
same. -/
structure Counterpart (p : Program) (levels : Nat) (a b : Operand) (address : Node) (y : NodeId)
    (n : Node) : Prop where
  node : p.node? y = some n
  covering : Leaf.node y ∈ p.operandSlice .address b
  opcode : n.opcode = .addressComputation
  length : address.operands.length = n.operands.length
  parts : SameParts p levels address n
  listed : ∀ u v, (u, v) ∈ (address.operands.drop 1).zip (n.operands.drop 1) →
    ∀ pair ∈ leafPairs p .value levels u v, pair ∈ indexPairs p levels a b

/-- An address computation among the leaves of an operand has a counterpart in every operand of the
same shape. -/
theorem exists_counterpart {a b : Operand} {id : NodeId} {address : Node}
    (h : (sameShape p (levels + 1) a b).verdict = true)
    (hid : Leaf.node id ∈ p.operandSlice .address a) (haddress : p.node? id = some address)
    (hop : address.opcode = .addressComputation) :
    ∃ y n, Counterpart p (levels + 1) a b address y n := by
  rcases mem_or_paired h hid with hmem | ⟨x, y, m, n, heq, hpaired⟩
  · refine ⟨id, address, haddress, hmem, hop, rfl, ⟨levels, rfl, fun i u v hu hv => ?_⟩, ?_⟩
    · obtain rfl := Option.some.inj (hu.symm.trans hv)
      exact sameShape_refl p levels u
    · intro u v huv pair hpair
      obtain ⟨i, hi⟩ := List.mem_iff_getElem?.mp huv
      obtain ⟨hu, hv⟩ := List.getElem?_zip_eq_some.mp hi
      have heq : u = v := Option.some.inj (hu.symm.trans hv)
      rw [heq, leafPairs_self] at hpair
      cases hpair
  · obtain rfl := Leaf.node.inj heq
    obtain rfl := Option.some.inj (hpaired.left.symm.trans haddress)
    obtain ⟨hopn, _, hlength, _⟩ := (comparable_iff _ n).mp hpaired.comparable
    refine ⟨y, n, hpaired.right, hpaired.covering, hopn ▸ hop, hlength, hpaired.parts, ?_⟩
    intro u v huv pair hpair
    refine List.mem_flatMap.mpr ⟨(id, y), hpaired.listed, ?_⟩
    dsimp only
    rw [hpaired.left, hpaired.right]
    exact List.mem_flatMap.mpr ⟨(u, v), huv, hpair⟩

namespace Counterpart

variable {a b u : Operand} {address n : Node} {y : NodeId} {leaf : Leaf}
  (h : Counterpart p (levels + 1) a b address y n)

include h

/-- By value slicing stops at a counterpart if the address does not depend on other operations. -/
theorem isLeaf_eq : LeafPolicy.value.isLeaf n = address.nodeOperands.isEmpty := by
  rw [nodeOperands_isEmpty_eq h.length h.parts]
  simp [LeafPolicy.isLeaf, h.opcode]

/-- An operand of the index has one of the same shape at its place. -/
theorem exists_operand (hu : u ∈ address.operands.drop 1) :
    ∃ v ∈ n.operands, (u, v) ∈ (address.operands.drop 1).zip (n.operands.drop 1) ∧
      (sameShape p levels u v).verdict = true := by
  have hdrop : (address.operands.drop 1).length = (n.operands.drop 1).length := by
    rw [List.length_drop, List.length_drop, h.length]
  obtain ⟨v, hv, hpair⟩ := exists_mem_zip hdrop hu
  have hmem : (u, v) ∈ (address.operands.zip n.operands).drop 1 := by
    rw [List.zip, List.drop_zipWith]
    exact hpair
  exact ⟨v, List.mem_of_mem_drop hv, hpair,
    h.parts.sameShape_of_mem_zip (List.mem_of_mem_drop hmem)⟩

/-- If neither address depends on other operations, the leaves of the index are externals among the
operands of the counterpart, which is a leaf by value itself. -/
theorem external_of_mem (hnodes : address.nodeOperands.isEmpty = true)
    (hu : u ∈ address.operands.drop 1) (hleaf : leaf ∈ p.operandSlice .value u) :
    Leaf.node y ∈ p.operandSlice .value b ∧
      ∃ e, leaf = .external e ∧ .external e ∈ n.operands := by
  have hconstant : n.opcode ≠ .constant := by simp [h.opcode]
  have hin : Leaf.node y ∈ p.operandSlice .value (.node y) :=
    mem_operandSlice_node_iff.mpr ⟨n, h.node, hconstant, .inl ⟨h.isLeaf_eq.trans hnodes, rfl⟩⟩
  refine ⟨mem_value_of_mem_address h.covering hin, ?_⟩
  have hnode : u.node? = none := by
    rw [List.isEmpty_iff, Node.nodeOperands, List.filterMap_eq_nil_iff] at hnodes
    exact hnodes u (List.mem_of_mem_drop hu)
  cases u with
  | node x => cases hnode
  | constant value => exact absurd hleaf (Fingerprint.not_mem_empty leaf)
  | external e =>
    obtain ⟨v, hv, _, hshape⟩ := h.exists_operand hu
    refine ⟨e, Fingerprint.mem_singleton.mp hleaf, ?_⟩
    by_cases heq : .external e = v
    · exact heq ▸ hv
    · obtain ⟨_, _, hx, _⟩ := nodes_of_sameShape hshape heq
      cases hx

/-- If the addresses depend on other operations, a leaf of the index is a leaf of the other operand
or stands at the place of one. -/
theorem mem_or_paired (hnodes : address.nodeOperands.isEmpty = false)
    (hu : u ∈ address.operands.drop 1) (hleaf : leaf ∈ p.operandSlice .value u) :
    leaf ∈ p.operandSlice .value b ∨ ∃ v x y' m' n', leaf = .node x ∧
      Paired p .value (levels + 1) u v x y' m' n' ∧ (x, y') ∈ indexPairs p (levels + 1) a b ∧
      Leaf.node y' ∈ p.operandSlice .value b := by
  have hconstant : n.opcode ≠ .constant := by simp [h.opcode]
  obtain ⟨v, hv, hpair, hshape⟩ := h.exists_operand hu
  have hinto : ∀ leaf, leaf ∈ p.operandSlice .value v → leaf ∈ p.operandSlice .value b := by
    intro leaf hleaf
    refine mem_value_of_mem_address h.covering ?_
    exact mem_operandSlice_node_iff.mpr ⟨n, h.node, hconstant,
      .inr ⟨h.isLeaf_eq.trans hnodes, v, hv, hleaf⟩⟩
  rcases Match.mem_or_paired (sameShape_mono hshape (Nat.le_succ levels)) hleaf with
    hthere | ⟨x, y', m', n', rfl, hpaired⟩
  · exact .inl (hinto _ hthere)
  · exact .inr ⟨v, x, y', m', n', rfl, hpaired, h.listed u v hpair _ hpaired.listed,
      hinto _ hpaired.covering⟩

end Counterpart

/-- The index of an address computation that is a leaf of an operand is covered by every operand of
the same shape, unless the comparison gets stuck. -/
theorem sameLocation_index {a b : Operand} {id : NodeId} {address : Node}
    (h : (sameShape p (levels + 1) a b).verdict = true)
    (hid : Leaf.node id ∈ p.operandSlice .address a) (haddress : p.node? id = some address)
    (hop : address.opcode = .addressComputation)
    (hstuck : stuck p ⟨.value, operands⟩ (levels + 1)
      (p.operandsSlice .value (address.operands.drop 1)) (p.operandSlice .value b)
      (indexPairs p (levels + 1) a b) = false) :
    (sameLocation p ⟨.value, operands⟩ (levels + 1)
      (p.operandsSlice .value (address.operands.drop 1)) (p.operandSlice .value b)).verdict =
        true := by
  obtain ⟨y, n, hcounterpart⟩ := exists_counterpart h hid haddress hop
  have hno := Bool.eq_false_iff.mp hstuck
  rw [ne_eq, stuck_succ_iff, not_or, not_or, Bool.not_eq_true] at hno
  obtain ⟨hfew, hexternals, _⟩ := hno
  have hself : ∀ leaf ∈ p.operandSlice .value b, (sameLocation p ⟨.value, operands⟩ (levels + 1)
      (.singleton leaf) (p.operandSlice .value b)).verdict = true :=
    fun leaf hleaf => sameLocation_singleton_iff.mpr ⟨leaf, hleaf, sameLeaf_self _ leaf⟩
  refine sameLocation_iff_singletons.mpr ⟨hfew, fun leaf hleaf => ?_⟩
  obtain ⟨u, hu, hof⟩ := mem_operandsSlice_iff.mp hleaf
  cases hnodes : address.nodeOperands.isEmpty with
  | true =>
    obtain ⟨hin, e, rfl, he⟩ := hcounterpart.external_of_mem hnodes hu hof
    have hmerge : n.isMerge = false := by simp [Node.isMerge, hcounterpart.opcode]
    by_cases hlevels : 1 ≤ levels
    · exact sameLocation_singleton_iff.mpr
        ⟨.node y, hin, sameLeaf_external hcounterpart.node hmerge he hlevels⟩
    · refine hself _ (Decidable.not_not.mp fun hmissing => hexternals ⟨?_, e, hleaf, hmissing⟩)
      omega
  | false =>
    rcases hcounterpart.mem_or_paired hnodes hu hof with
      hthere | ⟨v, x, y', m', n', rfl, hpaired, hplace, hcovering⟩
    · exact hself _ hthere
    · exact @Paired.covered p ⟨.value, operands⟩ levels _ _ _ _ _ _ _ _ _ hpaired hstuck
        (retraces p _ levels) hplace hleaf hcovering

end Index

end Match

end GuardElision
