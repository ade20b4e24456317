import GuardElision.Proofs.Match.Depth
import GuardElision.Proofs.Slice.Reached

/-!
# What the rules for two leaves say

The comparison of fingerprints takes the comparison one level further down as a parameter, and so
does the relation here that says when two leaves match: they are the same, they are operations of
one kind with operands that match place by place, or they are of different kinds and the covered
leaf is found inside the covering operation. Operations of one kind are never looked into.

The rules are told for leaves of slices only. Among these a generic operation has no operation among
its operands, so two of them match by equal operands, however operands are to be compared.
-/

namespace GuardElision

namespace Program

variable {p : Program} {leaves : LeafPolicy}

/-- If a leaf is an operation, then it exists, is no literal, and slicing stops at it. -/
def StopsAt (p : Program) (leaves : LeafPolicy) (leaf : Leaf) : Prop :=
  ∀ id, leaf = .node id →
    ∃ n, p.node? id = some n ∧ n.opcode ≠ .constant ∧ leaves.isLeaf n = true

theorem stopsAt_external (e : ExternalId) : p.StopsAt leaves (.external e) := by
  rintro id ⟨⟩

theorem stopsAt_of_mem_operandSlice {u : Operand} {leaf : Leaf}
    (h : leaf ∈ p.operandSlice leaves u) : p.StopsAt leaves leaf := by
  rintro id rfl
  cases u with
  | node root => exact (node_mem_backwardSlice_iff.mp h).2
  | external e => cases Fingerprint.mem_singleton.mp h
  | constant value => exact absurd h (Fingerprint.not_mem_empty _)

end Program

namespace Match

open Compare Program

/-- Two operations that are compared by their operands, and not by looking into the second one. -/
def OfOneKind (m n : Node) : Prop :=
  m.opcode = n.opcode ∧
    match m.opcode with
    | .controlMerge | .memoryRead => True
    | .addressComputation | .generic _ => m.operands.length = n.operands.length
    | .condBranch | .constant => False

theorem OfOneKind.symm {m n : Node} (h : OfOneKind m n) : OfOneKind n m := by
  obtain ⟨hop, hkind⟩ := h
  refine ⟨hop.symm, ?_⟩
  rw [← hop]
  cases hm : m.opcode <;> simp only [hm] at hkind ⊢ <;> exact hkind.symm

theorem OfOneKind.trans {m n k : Node} (hmn : OfOneKind m n) (hnk : OfOneKind n k) :
    OfOneKind m k := by
  obtain ⟨hop, hkind⟩ := hmn
  obtain ⟨hop', hkind'⟩ := hnk
  refine ⟨hop.trans hop', ?_⟩
  rw [← hop] at hkind'
  cases hm : m.opcode <;> simp only [hm] at hkind hkind' ⊢ <;> exact hkind.trans hkind'

section Relation

variable (p : Program) (leaves : LeafPolicy) (covers : Fingerprint → Fingerprint → Prop)

/-- What a read reads from is matched by what another one reads from. -/
inductive ReadPlace : Operand → Operand → Prop where
  | same (u : Operand) : ReadPlace u u
  | slices {u : Operand} {y : NodeId} :
      covers (p.operandSlice leaves u) (p.operandSlice leaves (.node y)) → ReadPlace u (.node y)

/-- An operand of an address computation is matched by the one at the same place of another. -/
inductive AddressPlace : Operand → Operand → Prop where
  | same (u : Operand) : AddressPlace u u
  | slices {x y : NodeId} :
      covers (p.operandSlice leaves (.node x)) (p.operandSlice leaves (.node y)) →
      AddressPlace (.node x) (.node y)
  /-- An offset may only grow. -/
  | offset {i j : UInt64} : i ≤ j → AddressPlace (.constant (.int i)) (.constant (.int j))
  /-- An external is looked for among the leaves and not inside of them. -/
  | named {e : ExternalId} {y : NodeId} : .external e ∈ p.operandSlice leaves (.node y) →
      AddressPlace (.external e) (.node y)

/-- Two operations of one kind match by their operands. -/
inductive Alike (m n : Node) : Prop where
  | read {u v : Operand} : m.opcode = .memoryRead → n.opcode = .memoryRead →
      m.operands = [u] → n.operands = [v] → ReadPlace p leaves covers u v → Alike m n
  | address : m.opcode = .addressComputation → n.opcode = .addressComputation →
      m.operands.length = n.operands.length →
      (∀ pair ∈ m.operands.zip n.operands, AddressPlace p leaves covers pair.1 pair.2) → Alike m n
  | generic {name : String} : m.opcode = .generic name → n.opcode = .generic name →
      m.operands = n.operands → Alike m n

/-- A leaf is found inside what an operation is computed from. -/
inductive FoundInside (leaf : Leaf) (n : Node) : Prop where
  | operand {u : Operand} : n.isMerge = false → u ∈ n.operands → u.isConstant = false →
      covers (.singleton leaf) (p.operandSlice leaves u) → FoundInside leaf n

/-- A leaf is matched by another one. -/
inductive LeafMatches : Leaf → Leaf → Prop where
  | same (leaf : Leaf) : LeafMatches leaf leaf
  | alike {x y : NodeId} {m n : Node} : p.node? x = some m → p.node? y = some n →
      Alike p leaves covers m n → LeafMatches (.node x) (.node y)
  | inside {leaf : Leaf} {y : NodeId} {n : Node} : p.node? y = some n →
      (∀ x m, leaf = .node x → p.node? x = some m → ¬ OfOneKind m n) →
      FoundInside p leaves covers leaf n → LeafMatches leaf (.node y)

end Relation

section Mono

variable {p : Program} {leaves : LeafPolicy} {covers covers' : Fingerprint → Fingerprint → Prop}

theorem Alike.ofOneKind {m n : Node} (h : Alike p leaves covers m n) : OfOneKind m n := by
  cases h with
  | read hm hn _ _ _ => simp [OfOneKind, hm, hn]
  | address hm hn hlength _ => simp [OfOneKind, hm, hn, hlength]
  | generic hm hn heq => simp [OfOneKind, hm, hn, heq]

variable (hmono : ∀ f g, covers f g → covers' f g)

include hmono

theorem ReadPlace.mono {u v : Operand} (h : ReadPlace p leaves covers u v) :
    ReadPlace p leaves covers' u v := by
  cases h with
  | same => exact .same u
  | slices hcovers => exact .slices (hmono _ _ hcovers)

theorem AddressPlace.mono {u v : Operand} (h : AddressPlace p leaves covers u v) :
    AddressPlace p leaves covers' u v := by
  cases h with
  | same => exact .same u
  | slices hcovers => exact .slices (hmono _ _ hcovers)
  | offset hle => exact .offset hle
  | named hmem => exact .named hmem

theorem Alike.mono {m n : Node} (h : Alike p leaves covers m n) : Alike p leaves covers' m n := by
  cases h with
  | read hm hn hu hv hplace => exact .read hm hn hu hv (hplace.mono hmono)
  | address hm hn hlength hplaces =>
    exact .address hm hn hlength fun pair hpair => (hplaces pair hpair).mono hmono
  | generic hm hn heq => exact .generic hm hn heq

theorem FoundInside.mono {leaf : Leaf} {n : Node} (h : FoundInside p leaves covers leaf n) :
    FoundInside p leaves covers' leaf n := by
  obtain ⟨hmerge, hu, hconstant, hcovers⟩ := h
  exact ⟨hmerge, hu, hconstant, hmono _ _ hcovers⟩

theorem LeafMatches.mono {a b : Leaf} (h : LeafMatches p leaves covers a b) :
    LeafMatches p leaves covers' a b := by
  cases h with
  | same => exact .same a
  | alike hx hy halike => exact .alike hx hy (halike.mono hmono)
  | inside hy hkind hinside => exact .inside hy hkind (hinside.mono hmono)

end Mono

section Inversion

variable {p : Program} {leaves : LeafPolicy} {covers : Fingerprint → Fingerprint → Prop}
  {x y : NodeId} {m n : Node} (hne : Leaf.node x ≠ Leaf.node y) (hx : p.node? x = some m)
  (hy : p.node? y = some n)

include hne hx hy

/-- Different operations of one kind match by their operands only. -/
theorem leafMatches_iff_alike (hkind : OfOneKind m n) :
    LeafMatches p leaves covers (.node x) (.node y) ↔ Alike p leaves covers m n := by
  constructor
  · intro h
    cases h with
    | same => exact absurd rfl hne
    | alike hx' hy' h =>
      obtain rfl := Option.some.inj (hx.symm.trans hx')
      obtain rfl := Option.some.inj (hy.symm.trans hy')
      exact h
    | inside hy' hother _ =>
      obtain rfl := Option.some.inj (hy.symm.trans hy')
      exact absurd hkind (hother x m rfl hx)
  · exact .alike hx hy

/-- Operations of different kinds match by finding one inside the other only. -/
theorem leafMatches_iff_foundInside (hkind : ¬ OfOneKind m n) :
    LeafMatches p leaves covers (.node x) (.node y) ↔
      FoundInside p leaves covers (.node x) n := by
  constructor
  · intro h
    cases h with
    | same => exact absurd rfl hne
    | alike hx' hy' h =>
      obtain rfl := Option.some.inj (hx.symm.trans hx')
      obtain rfl := Option.some.inj (hy.symm.trans hy')
      exact absurd h.ofOneKind hkind
    | inside hy' _ h =>
      obtain rfl := Option.some.inj (hy.symm.trans hy')
      exact h
  · refine .inside hy ?_
    rintro _ _ ⟨rfl⟩ hx'
    obtain rfl := Option.some.inj (hx.symm.trans hx')
    exact hkind

end Inversion

/-- The comparison one level further down accepts two fingerprints. -/
def Accepts (deeper : Deeper) (f g : Fingerprint) : Prop := (deeper f g).verdict = true

section Rules

variable {p : Program} {policy : MatchPolicy} {deeper : Deeper}
  (hdeeper : ∀ a b, Steady p (deeper a b))

include hdeeper

theorem sameSlices_iff (x y : NodeId) : (sameSlices p policy deeper x y).verdict = true ↔
    Accepts deeper (p.operandSlice policy.leaves (.node x))
      (p.operandSlice policy.leaves (.node y)) := by
  rw [sameSlices, verdict_bind (steady_slice _ x) fun _ =>
    (steady_slice _ y).bind fun _ => hdeeper _ _, verdict_bind (steady_slice _ y) fun _ =>
    hdeeper _ _]
  exact Iff.rfl

private theorem sameRead_iff_place {m n : Node} {u v : Operand} (hu : m.operands = [u])
    (hv : n.operands = [v]) : (sameRead p policy deeper m n).verdict = true ↔
      ReadPlace p policy.leaves (Accepts deeper) u v := by
  unfold sameRead
  rw [hu, hv]
  cases v with
  | node y =>
    cases u with
    | node x =>
      dsimp only
      split
      · next heq => exact iff_of_true rfl (heq ▸ .same _)
      · next hne =>
        rw [sameSlices_iff hdeeper]
        constructor
        · exact fun h => .slices h
        · intro h
          cases h with
          | same => exact absurd rfl hne
          | slices h => exact h
    | external e | constant value =>
      dsimp only
      rw [verdict_bind (steady_sliceOperand _ _) fun _ => (steady_slice _ y).bind fun _ =>
        hdeeper _ _, verdict_bind (steady_slice _ y) fun _ => hdeeper _ _]
      constructor
      · exact fun h => .slices h
      · intro h
        cases h with
        | slices h => exact h
  | external e | constant value =>
    cases u with
    | node x => exact iff_of_false Bool.false_ne_true nofun
    | external e' | constant value' =>
      constructor
      · intro h
        rw [eq_of_beq h]
        exact .same _
      · intro h
        cases h <;> exact beq_self_eq_true _

theorem sameRead_iff {m n : Node} (hm : m.opcode = .memoryRead) (hn : n.opcode = .memoryRead) :
    (sameRead p policy deeper m n).verdict = true ↔
      Alike p policy.leaves (Accepts deeper) m n := by
  constructor
  · intro h
    have hsingle : ∃ u v, m.operands = [u] ∧ n.operands = [v] := by
      unfold sameRead at h
      split at h <;> first | exact ⟨_, _, ‹_›, ‹_›⟩ | cases h
    obtain ⟨u, v, hu, hv⟩ := hsingle
    exact .read hm hn hu hv ((sameRead_iff_place hdeeper hu hv).mp h)
  · intro h
    cases h with
    | read _ _ hu hv hplace => exact (sameRead_iff_place hdeeper hu hv).mpr hplace
    | address hm' _ _ _ => rw [hm] at hm'; cases hm'
    | generic hm' _ _ => rw [hm] at hm'; cases hm'

theorem sameAddressPart_iff (u v : Operand) :
    (sameAddressPart p policy deeper u v).verdict = true ↔
      AddressPlace p policy.leaves (Accepts deeper) u v := by
  unfold sameAddressPart
  split
  · next x y =>
    split
    · next heq => exact iff_of_true rfl (heq ▸ .same _)
    · next hne =>
      rw [sameSlices_iff hdeeper]
      constructor
      · exact fun h => .slices h
      · intro h
        cases h with
        | same => exact absurd rfl hne
        | slices h => exact h
  · next i j =>
    constructor
    · exact fun h => .offset (of_decide_eq_true h)
    · intro h
      cases h with
      | same => exact decide_eq_true (UInt64.le_refl i)
      | offset hle => exact decide_eq_true hle
  · next e y =>
    have hverdict : (do
        let fb ← slice p policy.leaves y
        pure (fb.contains (.external e))).verdict =
          (p.operandSlice policy.leaves (.node y)).contains (.external e) :=
      verdict_bind (steady_slice _ y) fun _ => steady_pure _
    rw [hverdict, Fingerprint.contains, List.contains_iff_mem]
    constructor
    · exact fun h => .named h
    · intro h
      cases h with
      | named hmem => exact hmem
  · next hnodes hints hnamed =>
    constructor
    · intro h
      obtain rfl := eq_of_beq h
      exact .same u
    · intro h
      cases h with
      | same => exact beq_self_eq_true u
      | slices => exact absurd rfl (hnodes _ _ rfl)
      | offset => exact absurd rfl (hints _ _ rfl)
      | named => exact absurd rfl (hnamed _ _ rfl)

theorem matchInside_iff (leaf : Leaf) (n : Node) :
    (matchInside p policy deeper leaf n).verdict = true ↔
      FoundInside p policy.leaves (Accepts deeper) leaf n := by
  have hoperand : ∀ u, (do
      let fb ← sliceOperand p policy.leaves u
      deeper (.singleton leaf) fb).verdict =
        (deeper (.singleton leaf) (p.operandSlice policy.leaves u)).verdict := by
    intro u
    rw [verdict_bind (steady_sliceOperand _ u) fun fb => hdeeper _ fb]
    cases u <;> rfl
  unfold matchInside
  split
  · next hmerge =>
    refine iff_of_false Bool.false_ne_true ?_
    rintro ⟨hno, _⟩
    simp [hmerge] at hno
  · next hmerge =>
    rw [verdict_anyM fun u => (steady_sliceOperand _ u).bind fun fb => hdeeper _ fb,
      List.any_eq_true]
    constructor
    · rintro ⟨u, hu, h⟩
      obtain ⟨hmem, hconstant⟩ := List.mem_filter.mp hu
      rw [hoperand] at h
      exact .operand (by simpa using hmerge) hmem (by simpa using hconstant) h
    · rintro ⟨_, hmem, hconstant, h⟩
      refine ⟨_, List.mem_filter.mpr ⟨hmem, by simpa using hconstant⟩, ?_⟩
      rw [hoperand]
      exact h

/-- Generic operations without operations among their operands match by equal operands. -/
theorem sameGeneric_iff {m n : Node} (hm : m.nodeOperands = [])
    (hlength : m.operands.length = n.operands.length) :
    (sameGeneric p policy deeper m n).verdict = true ↔ m.operands = n.operands := by
  have hpart : ∀ u ∈ m.operands, ∀ v,
      (sameGenericPart p policy deeper u v).verdict = true ↔ u = v := by
    intro u hu v
    rw [Node.nodeOperands, List.filterMap_eq_nil_iff] at hm
    have hnode := hm u hu
    cases u with
    | node x => cases hnode
    | external e | constant value => exact beq_iff_eq
  unfold sameGeneric
  split
  · exact beq_iff_eq
  · have hall : (samePlaces (sameGenericPart p policy deeper) m.operands n.operands).verdict =
        (m.operands.zip n.operands).all fun pair =>
          (sameGenericPart p policy deeper pair.1 pair.2).verdict :=
      verdict_allM fun pair => steady_sameGenericPart hdeeper policy pair.1 pair.2
    rw [hall, List.all_eq_true]
    constructor
    · intro h
      apply List.ext_getElem hlength
      intro i hi hi'
      have hpair : (m.operands[i], n.operands[i]) ∈ m.operands.zip n.operands :=
        List.mem_of_getElem? (List.getElem?_zip_eq_some.mpr
          ⟨List.getElem?_eq_getElem hi, List.getElem?_eq_getElem hi'⟩)
      exact (hpart _ (List.getElem_mem hi) _).mp (h _ hpair)
    · rintro heq ⟨u, v⟩ hpair
      have huv : u = v := by
        obtain ⟨i, hi⟩ := List.mem_iff_getElem?.mp hpair
        obtain ⟨hu, hv⟩ := List.getElem?_zip_eq_some.mp hi
        exact Option.some.inj (hu.symm.trans (heq ▸ hv))
      exact (hpart u (List.of_mem_zip hpair).1 v).mpr huv

theorem samePlaces_address_iff (a b : List Operand) :
    (samePlaces (sameAddressPart p policy deeper) a b).verdict = true ↔
      ∀ pair ∈ a.zip b, AddressPlace p policy.leaves (Accepts deeper) pair.1 pair.2 := by
  have hall : (samePlaces (sameAddressPart p policy deeper) a b).verdict =
      (a.zip b).all fun pair => (sameAddressPart p policy deeper pair.1 pair.2).verdict :=
    verdict_allM fun pair => steady_sameAddressPart hdeeper policy pair.1 pair.2
  rw [hall, List.all_eq_true]
  exact forall₂_congr fun pair _ => sameAddressPart_iff hdeeper pair.1 pair.2

/-- A leaf is matched by an operation of the same kind if their operands match. -/
theorem sameNode_iff_alike {x : NodeId} {m n : Node} (hkind : OfOneKind m n)
    (hm : policy.leaves.isLeaf m = true) :
    (sameNode p policy deeper x m n).verdict = true ↔
      Alike p policy.leaves (Accepts deeper) m n := by
  obtain ⟨hop, hlength⟩ := hkind
  unfold sameNode
  rw [← hop]
  cases hopm : m.opcode with
  | controlMerge =>
    refine iff_of_false Bool.false_ne_true fun h => ?_
    cases h <;> simp_all
  | memoryRead => exact sameRead_iff hdeeper hopm (hop ▸ hopm)
  | addressComputation =>
    simp only [hopm] at hlength
    dsimp only
    rw [if_pos hlength, samePlaces_address_iff hdeeper]
    constructor
    · exact fun h => .address hopm (hop ▸ hopm) hlength h
    · intro h
      cases h with
      | address _ _ _ hplaces => exact hplaces
      | read hm' => rw [hopm] at hm'; cases hm'
      | generic hm' => rw [hopm] at hm'; cases hm'
  | generic name =>
    simp only [hopm] at hlength
    have hnone : m.nodeOperands = [] := by simpa [LeafPolicy.isLeaf, hopm] using hm
    dsimp only
    rw [if_pos ⟨rfl, hlength⟩, sameGeneric_iff hdeeper hnone hlength]
    constructor
    · exact fun h => .generic hopm (hop ▸ hopm) h
    · intro h
      cases h with
      | generic _ _ heq => exact heq
      | read hm' => rw [hopm] at hm'; cases hm'
      | address hm' => rw [hopm] at hm'; cases hm'
  | condBranch => simp [hopm] at hlength
  | constant => simp [hopm] at hlength

/-- A leaf is matched by an operation of another kind if it is found inside. -/
theorem sameNode_iff_foundInside {x : NodeId} {m n : Node} (hkind : ¬ OfOneKind m n) :
    (sameNode p policy deeper x m n).verdict = true ↔
      FoundInside p policy.leaves (Accepts deeper) (.node x) n := by
  have hinside : (matchInside p policy deeper (.node x) n).verdict = true ↔
      FoundInside p policy.leaves (Accepts deeper) (.node x) n :=
    matchInside_iff hdeeper (.node x) n
  unfold sameNode
  split
  · next hm hn => exact absurd (by simp [OfOneKind, hm, hn]) hkind
  · next hm hn => exact absurd (by simp [OfOneKind, hm, hn]) hkind
  · next hm hn =>
    split
    · next hlength => exact absurd (by simp [OfOneKind, hm, hn, hlength]) hkind
    · exact hinside
  · next hm hn =>
    split
    · next h => exact absurd (by simp [OfOneKind, hm, hn, h.1, h.2]) hkind
    · exact hinside
  · exact hinside

/-- The rules for two leaves decide the relation between them. -/
theorem sameLeaf_iff {a b : Leaf} (ha : p.StopsAt policy.leaves a) :
    (sameLeaf p policy deeper a b).verdict = true ↔
      LeafMatches p policy.leaves (Accepts deeper) a b := by
  unfold sameLeaf
  split
  · next heq => exact iff_of_true rfl (heq ▸ .same a)
  · next hne =>
    cases b with
    | external e =>
      refine iff_of_false Bool.false_ne_true fun h => ?_
      cases h with
      | same => exact hne rfl
    | node y =>
      dsimp only
      cases hy : p.node? y with
      | none =>
        refine iff_of_false Bool.false_ne_true fun h => ?_
        cases h with
        | same => exact hne rfl
        | alike _ hy' _ => rw [hy] at hy'; cases hy'
        | inside hy' _ _ => rw [hy] at hy'; cases hy'
      | some n =>
        cases a with
        | external e =>
          dsimp only
          rw [matchInside_iff hdeeper]
          constructor
          · exact fun h => .inside hy nofun h
          · intro h
            cases h with
            | inside hy' _ h =>
              obtain rfl := Option.some.inj (hy.symm.trans hy')
              exact h
        | node x =>
          obtain ⟨m, hx, _, hleaf⟩ := ha x rfl
          dsimp only
          rw [hx]
          dsimp only
          by_cases hkind : OfOneKind m n
          · rw [sameNode_iff_alike hdeeper hkind hleaf, leafMatches_iff_alike hne hx hy hkind]
          · rw [sameNode_iff_foundInside hdeeper hkind,
              leafMatches_iff_foundInside hne hx hy hkind]

end Rules

/-- One level down, a fingerprint is accepted when there are leaves enough and each of its leaves is
matched. -/
theorem sameLocation_succ_iff {p : Program} {policy : MatchPolicy} {levels : Nat}
    {f g : Fingerprint} : (sameLocation p policy (levels + 1) f g).verdict = true ↔
      tooFew f g = false ∧ ∀ a ∈ f, ∃ b ∈ g,
        (sameLeaf p policy (sameLocation p policy levels) a b).verdict = true := by
  have hsteady := steady_sameLocation p policy levels
  rw [sameLocation]
  cases hfew : tooFew f g with
  | true => exact iff_of_false Bool.false_ne_true nofun
  | false =>
    rw [if_neg Bool.false_ne_true, coverLeaves,
      verdict_allM fun a => Steady.anyM fun b => steady_sameLeaf hsteady policy a b,
      List.all_eq_true]
    simp only [verdict_anyM fun b => steady_sameLeaf hsteady policy _ b, List.any_eq_true,
      true_and]
    exact Iff.rfl

end Match

end GuardElision
