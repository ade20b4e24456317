import GuardElision.Proofs.Match.Covers
import GuardElision.Proofs.Match.Ladder
import GuardElision.Proofs.Match.Value
import Mathlib.Data.List.Perm.Subperm

/-!
# The same condition tested twice

Comparing an operand with itself is the least that a comparison should get right. Having the same
shape within a number of levels is an equivalence, so at the levels that compare shapes a check is
covered by every other one of the same condition. Fingerprints with leaves cover themselves as well.
But an address guard that is compared with a user check by its index is not compared with itself:
its index by value is looked for in the whole condition by value. If the address computation depends
on other operations, both slices go through it, and all of the index is found. If it does not,
slicing the condition stops at it: then nothing but a single external can be found, and it takes a
level to look into the address computation.
-/

namespace GuardElision

/-- A fingerprint has no more leaves than one that has all of them. -/
theorem Fingerprint.size_le_of_subset {f g : Fingerprint} (h : ∀ leaf ∈ f, leaf ∈ g) :
    f.size ≤ g.size := by
  have hdistinct : f.leaves.Nodup := f.ascending.imp fun hlt heq => by
    rw [heq] at hlt
    exact Nat.lt_irrefl _ hlt
  exact (List.subperm_of_subset hdistinct h).length_le

namespace Match

open Compare Program

/-- Within a number of levels, having the same shape is an equivalence of operands, whatever session
each two of them are compared in. -/
theorem sameShape_equivalence (p : Program) (maxDepth : Nat)
    (session : Operand → Operand → Session) :
    Equivalence fun a b => (sameShape p maxDepth a b (session a b)).1 = true := by
  have hverdict : ∀ a b, (sameShape p maxDepth a b (session a b)).1 =
      (sameShape p maxDepth a b).verdict :=
    fun a b => ignoresSession_sameShape p maxDepth a b (session a b)
  simp only [hverdict]
  exact ⟨sameShape_refl p maxDepth, sameShape_symm, sameShape_trans⟩

variable {p : Program} {policy : MatchPolicy} {levels : Nat}

/-- With a level left, leaves are covered by a fingerprint that has all of them. -/
theorem sameLocation_of_subset {f g : Fingerprint} (hlevels : 1 ≤ levels) (hf : f.leaves ≠ [])
    (hsubset : ∀ leaf ∈ f, leaf ∈ g) : (sameLocation p policy levels f g).verdict = true := by
  obtain ⟨deeper, rfl⟩ := Nat.exists_eq_add_one.mpr hlevels
  refine sameLocation_succ_iff.mpr ⟨?_, fun leaf hleaf => ⟨leaf, hsubset leaf hleaf, ?_⟩⟩
  · exact tooFew_eq_false_iff.mpr ⟨hf, Fingerprint.size_le_of_subset hsubset⟩
  · exact sameLeaf_self _ leaf

/-- It takes a level to find an external in an operation that has it among its operands. -/
theorem sameLeaf_external_iff {e : ExternalId} {y : NodeId} {n : Node} (hy : p.node? y = some n)
    (hmerge : n.isMerge = false) (he : .external e ∈ n.operands) :
    (sameLeaf p policy (sameLocation p policy levels) (.external e) (.node y)).verdict = true ↔
      1 ≤ levels := by
  refine ⟨fun h => ?_, sameLeaf_external hy hmerge he⟩
  have hmatch := (sameLeaf_iff (steady_sameLocation p policy levels) (stopsAt_external e)).mp h
  cases hmatch with
  | inside _ _ hinside =>
    obtain ⟨_, _, _, hcovers⟩ := hinside
    refine Nat.one_le_iff_ne_zero.mpr fun hzero => ?_
    subst hzero
    exact not_coversWithin_zero hcovers

end Match

namespace Program

variable {p : Program}

/-- The fingerprint of the index of an address computation, which is all but its first operand. -/
def indexSlice (p : Program) (address : Node) : Fingerprint :=
  p.operandsSlice .value (address.operands.drop 1)

/-- An operand with a single leaf by address has by value what that leaf has by value. -/
theorem mem_value_iff_of_single {a : Operand} {id : NodeId}
    (h : (p.operandSlice .address a).leaves = [.node id]) {leaf : Leaf} :
    leaf ∈ p.operandSlice .value a ↔ leaf ∈ p.operandSlice .value (.node id) := by
  have hsingle : ∀ other, other ∈ p.operandSlice .address a ↔ other = .node id := by
    intro other
    exact (iff_of_eq (congrArg (other ∈ ·) h)).trans List.mem_singleton
  cases a with
  | constant value => cases h
  | external e => cases (hsingle (.external e)).mp (Fingerprint.mem_singleton.mpr rfl)
  | node root =>
    refine mem_backwardSlice_value_iff.trans ?_
    constructor
    · rintro ⟨stop, hstop, hleaf⟩
      obtain rfl := (hsingle stop).mp hstop
      exact hleaf
    · exact fun hleaf => ⟨.node id, (hsingle _).mpr rfl, hleaf⟩

end Program

namespace Strategy

open Compare Program

/-- The index of an address computation is found again in the address itself: it has leaves, and if
the address depends on no operation, it is a single external and there is a level left to look for
it among the operands. -/
structure IndexFound (p : Program) (levels : Nat) (address : Node) : Prop where
  leaves : (p.indexSlice address).leaves ≠ []
  alone : address.nodeOperands = [] → (p.indexSlice address).size = 1 ∧ 2 ≤ levels

instance (p : Program) (levels : Nat) (address : Node) : Decidable (IndexFound p levels address) :=
  decidable_of_iff ((p.indexSlice address).leaves ≠ [] ∧
      (address.nodeOperands = [] → (p.indexSlice address).size = 1 ∧ 2 ≤ levels))
    ⟨fun h => ⟨h.1, h.2⟩, fun h => ⟨h.leaves, h.alone⟩⟩

/-- The index of an address that depends on no operation consists of externals. -/
private theorem external_of_mem_indexSlice {p : Program} {address : Node}
    (hnodes : address.nodeOperands = []) {leaf : Leaf} (hleaf : leaf ∈ p.indexSlice address) :
    ∃ e, leaf = .external e ∧ .external e ∈ address.operands := by
  obtain ⟨u, hu, hleaf⟩ := mem_operandsSlice_iff.mp hleaf
  have hmem := List.mem_of_mem_drop hu
  cases u with
  | constant value => exact absurd hleaf (Fingerprint.not_mem_empty leaf)
  | external e => exact ⟨e, Fingerprint.mem_singleton.mp hleaf, hmem⟩
  | node x =>
    rw [Node.nodeOperands, List.filterMap_eq_nil_iff] at hnodes
    cases hnodes _ hmem

section Address

variable {p : Program} {operands : OperandMatch} {levels : Nat} {a : Operand} {id : NodeId}
  {address : Node} (hsingle : (p.operandSlice .address a).leaves = [.node id])
  (hid : p.node? id = some address) (hop : address.opcode = .addressComputation)

include hsingle hid hop

/-- Slicing by value goes through an address that depends on operations, and on to its index. -/
private theorem indexSlice_subset (hnodes : address.nodeOperands ≠ []) :
    ∀ leaf ∈ p.indexSlice address, leaf ∈ p.operandSlice .value a := by
  intro leaf hleaf
  obtain ⟨u, hu, hleaf⟩ := mem_operandsSlice_iff.mp hleaf
  refine (mem_value_iff_of_single hsingle).mpr (mem_operandSlice_node_iff.mpr ?_)
  refine ⟨address, hid, by simp [hop], .inr ⟨?_, u, List.mem_of_mem_drop hu, hleaf⟩⟩
  simp [LeafPolicy.isLeaf, hop, hnodes]

/-- Slicing by value stops at an address that depends on no operation. -/
private theorem mem_value_iff_of_nodeOperands (hnodes : address.nodeOperands = []) {leaf : Leaf} :
    leaf ∈ p.operandSlice .value a ↔ leaf = .node id := by
  have hleaf : LeafPolicy.value.isLeaf address = true := by
    simp [LeafPolicy.isLeaf, hop, hnodes]
  rw [mem_value_iff_of_single hsingle, mem_operandSlice_node_iff]
  constructor
  · rintro ⟨n, hn, _, ⟨_, rfl⟩ | ⟨hgoes, _⟩⟩
    · rfl
    · obtain rfl := Option.some.inj (hid.symm.trans hn)
      rw [hleaf] at hgoes
      cases hgoes
  · exact fun h => ⟨address, hid, by simp [hop], .inl ⟨hleaf, h⟩⟩

private theorem size_value_of_nodeOperands (hnodes : address.nodeOperands = []) :
    (p.operandSlice .value a).size = 1 := by
  have hstop {leaf : Leaf} : leaf ∈ p.operandSlice .value a ↔ leaf = .node id :=
    mem_value_iff_of_nodeOperands hsingle hid hop hnodes
  have hle := Fingerprint.size_le_of_subset fun leaf hleaf =>
    Fingerprint.mem_singleton.mpr (hstop.mp hleaf)
  exact Nat.le_antisymm hle (List.length_pos_of_mem (hstop.mpr rfl))

/-- With a level left, an operand whose only leaf is an address covers the index of that address
exactly if the index is found there. -/
theorem sameLocation_indexSlice_iff (hlevels : 1 ≤ levels) :
    (Match.sameLocation p ⟨.value, operands⟩ levels (p.indexSlice address)
      (p.operandSlice .value a)).verdict = true ↔ IndexFound p levels address := by
  obtain ⟨deeper, rfl⟩ := Nat.exists_eq_add_one.mpr hlevels
  by_cases hnodes : address.nodeOperands = []
  · have hstop {leaf : Leaf} : leaf ∈ p.operandSlice .value a ↔ leaf = .node id :=
      mem_value_iff_of_nodeOperands hsingle hid hop hnodes
    have hmerge : address.isMerge = false := by simp [Node.isMerge, hop]
    rw [Match.sameLocation_succ_iff, Match.tooFew_eq_false_iff,
      size_value_of_nodeOperands hsingle hid hop hnodes]
    constructor
    · rintro ⟨⟨hne, hle⟩, hall⟩
      refine ⟨hne, fun _ => ⟨Nat.le_antisymm hle (List.length_pos_iff.mpr hne), ?_⟩⟩
      obtain ⟨leaf, hleaf⟩ := List.exists_mem_of_ne_nil _ hne
      obtain ⟨e, rfl, he⟩ := external_of_mem_indexSlice hnodes hleaf
      obtain ⟨stop, hmem, hmatch⟩ := hall _ hleaf
      obtain rfl := hstop.mp hmem
      exact Nat.succ_le_succ ((Match.sameLeaf_external_iff hid hmerge he).mp hmatch)
    · intro h
      obtain ⟨hone, hdeeper⟩ := h.alone hnodes
      refine ⟨⟨h.leaves, Nat.le_of_eq hone⟩, fun leaf hleaf => ⟨.node id, hstop.mpr rfl, ?_⟩⟩
      obtain ⟨e, rfl, he⟩ := external_of_mem_indexSlice hnodes hleaf
      exact (Match.sameLeaf_external_iff hid hmerge he).mpr (Nat.le_of_succ_le_succ hdeeper)
  · constructor
    · intro h
      have hfew := (Match.sameLocation_succ_iff.mp h).1
      exact ⟨(Match.tooFew_eq_false_iff.mp hfew).1, fun hnone => absurd hnone hnodes⟩
    · exact fun h => Match.sameLocation_of_subset hlevels h.leaves
        (indexSlice_subset hsingle hid hop hnodes)

end Address

variable {p : Program} {candidate coverer : Check} {source : Source} {s : Strategy}

/-- Where fingerprints are compared and the counts are not taken as proof, only an index may be
missed. -/
private theorem verdict_same_condition_iff (hdeep : s.level.isShallow = false)
    (hcounts : ¬ (source = .coverage ∧ s.level.trustsCounts = true)) (hdepth : 1 ≤ s.maxDepth)
    {condition : Operand} (hcandidate : p.condition? candidate.branch = some condition)
    (hcoverer : p.condition? coverer.branch = some condition)
    (hleaves : (p.operandSlice (MatchPolicy.ofKind candidate.kind).leaves condition).leaves ≠ []) :
    (s.subsumed p candidate coverer source).verdict = true ↔
      ∀ address ∈ indexed? p candidate coverer source
        (p.operandSlice (MatchPolicy.ofKind candidate.kind).leaves condition),
          IndexFound p s.maxDepth address := by
  cases hindexed : indexed? p candidate coverer source
      (p.operandSlice (MatchPolicy.ofKind candidate.kind).leaves condition) with
  | none =>
    rw [verdict_subsumed hdeep hcounts hcandidate hcoverer (by rw [wanted, hindexed])]
    refine iff_of_true ?_ fun address haddress => absurd haddress (Option.not_mem_none address)
    exact Match.sameLocation_of_subset hdepth hleaves fun _ hleaf => hleaf
  | some address =>
    rw [verdict_subsumed hdeep hcounts hcandidate hcoverer (by rw [wanted, hindexed])]
    obtain ⟨⟨_, _, hkind⟩, haddress⟩ := Option.ite_none_right_eq_some.mp hindexed
    obtain ⟨id, hsingle, hid, hop⟩ := leaves_of_address? haddress
    rw [hkind] at hsingle
    refine (sameLocation_indexSlice_iff hsingle hid hop hdepth).trans ?_
    simp only [Option.mem_some, forall_eq']

/-- Whatever was compared before, a check of a condition whose fingerprint has leaves is covered by
every check of the same condition, to a depth of at least one, whatever the origins and kinds of the
two. Only at the level that compares indices with the coverage for evidence, an address guard is
covered by a user check exactly if its index is found in the condition. -/
theorem subsumed_of_same_condition_iff (hdepth : 1 ≤ s.maxDepth) {condition : Operand}
    (hcandidate : p.condition? candidate.branch = some condition)
    (hcoverer : p.condition? coverer.branch = some condition)
    (hleaves : (p.operandSlice (MatchPolicy.ofKind candidate.kind).leaves condition).leaves ≠ [])
    (earlier : List Request) :
    (s.subsumed p candidate coverer source
        (Request.sessionAfter p s.maxDepth earlier)).1 = true ↔
      (s.level = .l2 → ∀ address ∈ indexed? p candidate coverer source
        (p.operandSlice (MatchPolicy.ofKind candidate.kind).leaves condition),
          IndexFound p s.maxDepth address) := by
  rw [(s.steady_subsumed p candidate coverer source).value _
    (Request.faithful_sessionAfter p s.maxDepth earlier)]
  by_cases hcounts : source = .coverage ∧ s.level.trustsCounts = true
  · rw [subsumed_of_trustsCounts p candidate coverer hcounts]
    refine iff_of_true rfl fun hlevel => ?_
    rw [hlevel] at hcounts
    cases hcounts.2
  cases hshallow : s.level.isShallow with
  | true =>
    rw [subsumed_of_isShallow hshallow, hcandidate, hcoverer]
    refine iff_of_true (Match.sameShape_refl p s.maxDepth condition) fun hlevel => ?_
    rw [hlevel] at hshallow
    cases hshallow
  | false =>
    rw [verdict_same_condition_iff hshallow hcounts hdepth hcandidate hcoverer hleaves]
    refine ⟨fun h _ => h, fun h address haddress => h ?_ address haddress⟩
    -- an index is compared for the coverage only, which the highest level takes as proof
    obtain ⟨⟨hsource, _, _⟩, _⟩ := Option.ite_none_right_eq_some.mp haddress
    cases hlevel : s.level <;>
      simp [hlevel, hsource, Level.isShallow, Level.trustsCounts] at hshallow hcounts ⊢

open Build in
/-- Four addresses, each of which is tested twice: at a literal, at an external and at two of them,
and at a place that is read first. -/
def retests : Program :=
  let steps : Build Unit := do
    let main ← procedure "main"
    let body ← block main
    let done ← block main
    let fail ← block main
    let base ← external "base"
    let row ← external "row"
    let column ← external "column"
    let start ← operation body .addressComputation [.external base, .constant (.int 0)]
    let entry ← operation body .addressComputation [.external base, .external row]
    let cell ← operation body .addressComputation [.external base, .external row, .external column]
    let loaded ← operation body .memoryRead [.external row]
    let slot ← operation body .addressComputation [.external base, .node loaded]
    let _ ← branch body (.node start) done fail
    let _ ← branch body (.node start) done fail
    let _ ← branch body (.node entry) done fail
    let _ ← branch body (.node entry) done fail
    let _ ← branch body (.node cell) done fail
    let _ ← branch body (.node cell) done fail
    let _ ← branch body (.node slot) done fail
    let _ ← branch body (.node slot) done fail
  (steps.run.run { name := "retests" }).2

/-- Whether a user check covers an address guard, both given by their branches, where indices are
compared if the coverage is the evidence. -/
def retestVerdict (maxDepth : Nat) (candidate coverer : NodeId) (source : Source) : Bool :=
  ((⟨.l2, "indvars", maxDepth⟩ : Strategy).subsumed retests ⟨⟨1⟩, candidate, .sanitizer, .address⟩
    ⟨⟨2⟩, coverer, .user, .generic⟩ source (Request.sessionAfter retests maxDepth [])).1

/-- An index that is read first is found without another level, and a single external with one; a
literal is not found. -/
theorem retests_found :
    retestVerdict 1 ⟨11⟩ ⟨12⟩ .coverage = true ∧ retestVerdict 2 ⟨7⟩ ⟨8⟩ .coverage = true ∧
      retestVerdict 32 ⟨5⟩ ⟨6⟩ .coverage ≠ true := by
  refine ⟨?_, ?_, fun h => ?_⟩
  · exact (@subsumed_of_same_condition_iff _ _ _ _ ⟨.l2, "indvars", 1⟩ (by decide) (.node ⟨4⟩)
      (by decide +kernel) (by decide +kernel) (by decide +kernel) []).mpr (by decide +kernel)
  · exact (@subsumed_of_same_condition_iff _ _ _ _ ⟨.l2, "indvars", 2⟩ (by decide) (.node ⟨1⟩)
      (by decide +kernel) (by decide +kernel) (by decide +kernel) []).mpr (by decide +kernel)
  · have hfound := (@subsumed_of_same_condition_iff _ _ _ _ ⟨.l2, "indvars", 32⟩ (by decide)
      (.node ⟨0⟩) (by decide +kernel) (by decide +kernel) (by decide +kernel) []).mp h
    exact absurd hfound (by decide +kernel)

/-- Two tests of one condition, whose fingerprint has leaves and is covered as a whole, are told
apart by their index if it is a literal, if it is an external and there is no level left to look for
it, and if it consists of two externals. -/
theorem retests_rejected :
    (retests.condition? ⟨5⟩ = some (.node ⟨0⟩) ∧ retests.condition? ⟨6⟩ = some (.node ⟨0⟩) ∧
      (retests.operandSlice .address (.node ⟨0⟩)).leaves ≠ [] ∧
      retestVerdict 32 ⟨5⟩ ⟨6⟩ .dominance = true ∧ retestVerdict 32 ⟨5⟩ ⟨6⟩ .coverage = false) ∧
    (retests.condition? ⟨7⟩ = some (.node ⟨1⟩) ∧ retests.condition? ⟨8⟩ = some (.node ⟨1⟩) ∧
      (retests.operandSlice .address (.node ⟨1⟩)).leaves ≠ [] ∧
      retestVerdict 1 ⟨7⟩ ⟨8⟩ .dominance = true ∧ retestVerdict 1 ⟨7⟩ ⟨8⟩ .coverage = false) ∧
    retests.condition? ⟨9⟩ = some (.node ⟨2⟩) ∧ retests.condition? ⟨10⟩ = some (.node ⟨2⟩) ∧
      (retests.operandSlice .address (.node ⟨2⟩)).leaves ≠ [] ∧
      retestVerdict 32 ⟨9⟩ ⟨10⟩ .dominance = true ∧ retestVerdict 32 ⟨9⟩ ⟨10⟩ .coverage = false := by
  decide +kernel

end Strategy

end GuardElision
