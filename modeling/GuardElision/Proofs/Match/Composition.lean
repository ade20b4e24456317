import GuardElision.Program.Builder
import GuardElision.Proofs.Match.Covers
import GuardElision.Proofs.Match.Shape

/-!
# Covering composes, and where it does not

If one fingerprint is covered by a second and that by a third, then the first should be covered by
the third. Nearly always it is: sizes compose, and so do all rules for two leaves but two pairs. A
leaf may be found inside a second operation and that inside a third one which is of the first one's
kind, and operations of one kind are never looked into. And an external among the operands of an
address computation is looked for among the leaves of the operand at its place, but not inside of
them. Either takes an address computation that is a leaf and has an operation among its operands,
so by value covering composes without exception.
-/

namespace GuardElision

/-- The leaves that comparing a fingerprint may come to: its own, and those of the operands of an
operation among them. -/
inductive Fingerprint.Meets (p : Program) (leaves : LeafPolicy) (f : Fingerprint) :
    Leaf → Prop where
  | own {leaf : Leaf} : leaf ∈ f → Meets p leaves f leaf
  | behind {id : NodeId} {n : Node} {u : Operand} {leaf : Leaf} : Meets p leaves f (.node id) →
      p.node? id = some n → u ∈ n.operands → leaf ∈ p.operandSlice leaves u →
      Meets p leaves f leaf

namespace Match

open Compare Program

/-- A read inside an address inside a read, or an address computation inside something of another
kind inside an address computation of its own kind. -/
def Nested (m n k : Node) : Prop :=
  m.opcode = .memoryRead ∧ n.opcode = .addressComputation ∧ k.opcode = .memoryRead ∨
    m.opcode = .addressComputation ∧ k.opcode = .addressComputation ∧
      m.operands.length = k.operands.length ∧
      (n.opcode = .memoryRead ∨
        n.opcode = .addressComputation ∧ n.operands.length ≠ m.operands.length)

/-- Three address computations of one kind with, at one place, an external, an operation that has it
for a leaf, and an operation that has it inside a leaf only. -/
def Misplaced (p : Program) (policy : MatchPolicy) (m n k : Node) : Prop :=
  m.opcode = .addressComputation ∧ OfOneKind m n ∧ OfOneKind n k ∧
    ∃ (i : Nat) (e : ExternalId) (y z : NodeId), m.operands[i]? = some (.external e) ∧
      n.operands[i]? = some (.node y) ∧ k.operands[i]? = some (.node z) ∧
      .external e ∈ p.operandSlice policy.leaves (.node y) ∧
      .external e ∉ p.operandSlice policy.leaves (.node z) ∧
      Covers p policy (.singleton (.external e)) (p.operandSlice policy.leaves (.node z))

/-- One of the two ways in which an operation can stand between two others. -/
def Obstructs (p : Program) (policy : MatchPolicy) (x y z : NodeId) : Prop :=
  policy.leaves = .address ∧ ∃ m n k, p.node? x = some m ∧ p.node? y = some n ∧
    p.node? z = some k ∧ (Nested m n k ∨ Misplaced p policy m n k)

/-- The first of three operations is covered by the second and that by the third, but not the first
by the third. -/
structure Blocked (p : Program) (policy : MatchPolicy) (x y z : NodeId) : Prop where
  left : Covers p policy (.singleton (.node x)) (.singleton (.node y))
  right : Covers p policy (.singleton (.node y)) (.singleton (.node z))
  broken : ¬ Covers p policy (.singleton (.node x)) (.singleton (.node z))
  obstructs : Obstructs p policy x y z

section Composition

variable {p : Program} {policy : MatchPolicy} {f g h : Fingerprint}
  {accepts : Fingerprint → Fingerprint → Prop}

theorem stopsAt_of_meets {leaves : LeafPolicy} (hf : ∀ a ∈ f, p.StopsAt leaves a) {a : Leaf}
    (ha : f.Meets p leaves a) : p.StopsAt leaves a := by
  cases ha with
  | own hmem => exact hf a hmem
  | behind _ _ _ hmem => exact stopsAt_of_mem_operandSlice hmem

theorem meets_singleton {leaves : LeafPolicy} {a : Leaf} (ha : f.Meets p leaves a) :
    ∀ leaf ∈ Fingerprint.singleton a, f.Meets p leaves leaf := by
  intro leaf hleaf
  obtain rfl := Fingerprint.mem_singleton.mp hleaf
  exact ha

/-- An operation that matches another of its kind has at some place what is found at a place of the
other. -/
theorem Alike.exists_operand {n k : Node} (hnk : Alike p policy.leaves accepts n k) {u : Operand}
    (hu : u ∈ n.operands) (hconstant : u.isConstant = false) :
    ∃ v ∈ k.operands, v.isConstant = false ∧
      (u = v ∨ accepts (p.operandSlice policy.leaves u) (p.operandSlice policy.leaves v) ∨
        ∃ e, u = .external e ∧ .external e ∈ p.operandSlice policy.leaves v) := by
  cases hnk with
  | read _ _ hn hk hplace =>
    rw [hn] at hu
    obtain rfl := List.mem_singleton.mp hu
    rw [hk]
    cases hplace with
    | same => exact ⟨u, List.mem_singleton.mpr rfl, hconstant, .inl rfl⟩
    | slices hcovers => exact ⟨_, List.mem_singleton.mpr rfl, rfl, .inr (.inl hcovers)⟩
  | generic _ _ heq => exact ⟨u, heq ▸ hu, hconstant, .inl rfl⟩
  | address _ _ hlength hplaces =>
    obtain ⟨v, hv, hpair⟩ := exists_mem_zip hlength hu
    refine ⟨v, hv, ?_⟩
    cases hplaces (u, v) hpair with
    | same => exact ⟨hconstant, .inl rfl⟩
    | slices hcovers => exact ⟨rfl, .inr (.inl hcovers)⟩
    | offset => cases hconstant
    | named hmem => exact ⟨rfl, .inr (.inr ⟨_, rfl, hmem⟩)⟩

theorem Alike.isMerge_eq_false {n k : Node} (hnk : Alike p policy.leaves accepts n k) :
    k.isMerge = false := by
  cases hnk <;> simp_all [Node.isMerge]

/-- An operation that is a leaf though there are operations among its operands. -/
theorem opcode_of_isLeaf {leaves : LeafPolicy} {n : Node} {id : NodeId}
    (hleaf : leaves.isLeaf n = true) (hid : .node id ∈ n.operands) :
    n.isMerge = true ∨ n.opcode = .memoryRead ∨
      n.opcode = .addressComputation ∧ leaves = .address := by
  have hnodes : n.nodeOperands ≠ [] :=
    List.ne_nil_of_mem (List.mem_filterMap.mpr ⟨.node id, hid, rfl⟩)
  unfold LeafPolicy.isLeaf at hleaf
  split at hleaf
  · next hop => exact .inr (.inl hop)
  · next hop => exact .inl (beq_of_eq hop)
  · next hop => exact .inr (.inr ⟨hop, rfl⟩)
  · exact absurd (List.isEmpty_iff.mp hleaf) hnodes

/-- A leaf with an operation inside is a read, or an address computation when these are leaves. -/
theorem opcode_of_foundInside {x y : NodeId} {n : Node} (hx : p.StopsAt policy.leaves (.node x))
    (hy : p.StopsAt policy.leaves (.node y)) (hn : p.node? y = some n)
    (hinside : FoundInside p policy.leaves (Covers p policy) (.node x) n) :
    n.opcode = .memoryRead ∨ n.opcode = .addressComputation ∧ policy.leaves = .address := by
  obtain ⟨n', hn', _, hleaf⟩ := hy y rfl
  obtain rfl := Option.some.inj (hn.symm.trans hn')
  obtain @⟨u, hmerge, hu, hconstant, hcovers⟩ := hinside
  cases u with
  | node id => exact (opcode_of_isLeaf hleaf hu).resolve_left (by simp [hmerge])
  | external e => cases (covers_singletons_iff hx).mp hcovers
  | constant value => cases hconstant

/-- An operation inside a second one of another kind inside a third one of its own kind. -/
theorem nested_of_ofOneKind {m n k : Node} (hmk : OfOneKind m k) (hmn : ¬ OfOneKind m n)
    (hn : n.opcode = .memoryRead ∨ n.opcode = .addressComputation ∧ policy.leaves = .address)
    (hk : k.opcode = .memoryRead ∨ k.opcode = .addressComputation ∧ policy.leaves = .address) :
    policy.leaves = .address ∧ Nested m n k := by
  obtain ⟨hop, hlength⟩ := hmk
  rcases hk with hk | ⟨hk, hleaves⟩
  · have hm := hop.trans hk
    rcases hn with hn | ⟨hn, hleaves⟩
    · exact absurd (by simp [OfOneKind, hm, hn]) hmn
    · exact ⟨hleaves, .inl ⟨hm, hn, hk⟩⟩
  · have hm := hop.trans hk
    simp only [hm] at hlength
    refine ⟨hleaves, .inr ⟨hm, hk, hlength, ?_⟩⟩
    rcases hn with hn | ⟨hn, _⟩
    · exact .inl hn
    · exact .inr ⟨hn, fun heq => hmn (by simp [OfOneKind, hm, hn, heq])⟩

/-- An external is misplaced only where an address computation on an operation is a leaf. -/
theorem Misplaced.byAddress {z : NodeId} {m n k : Node} (hz : p.StopsAt policy.leaves (.node z))
    (hk : p.node? z = some k) (hplaced : Misplaced p policy m n k) : policy.leaves = .address := by
  obtain ⟨hopm, hmn, hnk, _, _, _, _, _, _, hoperand, _⟩ := hplaced
  have hopk : k.opcode = .addressComputation := (hmn.trans hnk).1 ▸ hopm
  obtain ⟨k', hk', _, hleaf⟩ := hz z rfl
  obtain rfl := Option.some.inj (hk.symm.trans hk')
  rcases opcode_of_isLeaf hleaf (List.mem_of_getElem? hoperand) with hop | hop | ⟨_, hleaves⟩
  · simp [Node.isMerge, hopk] at hop
  · rw [hopk] at hop; cases hop
  · exact hleaves

variable (p policy f g h) in
/-- What is covered by something that is accepted further on is covered there, for all fingerprints
that comparing three given ones may come to. -/
def Composes (accepts : Fingerprint → Fingerprint → Prop) : Prop :=
  ∀ f' g' h' : Fingerprint, (∀ a ∈ f', f.Meets p policy.leaves a) →
    (∀ b ∈ g', g.Meets p policy.leaves b) → (∀ c ∈ h', h.Meets p policy.leaves c) →
    Covers p policy f' g' → accepts g' h' → Covers p policy f' h'

variable (hf : ∀ a ∈ f, p.StopsAt policy.leaves a) (hcompose : Composes p policy f g h accepts)

section Inside

variable {a b : Leaf} (ha : f.Meets p policy.leaves a)

include hf hcompose ha

/-- What is matched by a leaf inside an operation is found inside the operation. -/
theorem foundInside_of_matches {z : NodeId} {k : Node} (hb : g.Meets p policy.leaves b)
    (hz : h.Meets p policy.leaves (.node z)) (hk : p.node? z = some k)
    (hab : LeafMatches p policy.leaves (Covers p policy) a b)
    (hbk : FoundInside p policy.leaves accepts b k) :
    FoundInside p policy.leaves (Covers p policy) a k := by
  obtain ⟨hmerge, hu, hconstant, haccepts⟩ := hbk
  have hcovers := (covers_singletons_iff (stopsAt_of_meets hf ha)).mpr hab
  exact .operand hmerge hu hconstant (hcompose _ _ _ (meets_singleton ha) (meets_singleton hb)
    (fun c hc => .behind hz hk hu hc) hcovers haccepts)

/-- What is found inside an operation is found inside another one that matches it by operands. -/
theorem foundInside_of_alike {y z : NodeId} {n k : Node} (hy : g.Meets p policy.leaves (.node y))
    (hn : p.node? y = some n) (hz : h.Meets p policy.leaves (.node z)) (hk : p.node? z = some k)
    (han : FoundInside p policy.leaves (Covers p policy) a n)
    (hnk : Alike p policy.leaves accepts n k) :
    FoundInside p policy.leaves (Covers p policy) a k := by
  obtain ⟨_, hu, hconstant, hcovers⟩ := han
  obtain ⟨v, hv, hconstant', hplace⟩ := hnk.exists_operand hu hconstant
  refine .operand hnk.isMerge_eq_false hv hconstant' ?_
  rcases hplace with rfl | haccepts | ⟨e, rfl, hmem⟩
  · exact hcovers
  · exact hcompose _ _ _ (meets_singleton ha) (fun b hb => .behind hy hn hu hb)
      (fun c hc => .behind hz hk hv hc) hcovers haccepts
  · -- only the external itself is found in an external
    have hstops := stopsAt_of_meets hf ha
    obtain ⟨b, hb, hmatch⟩ := (covers_singleton_iff hstops).mp hcovers
    obtain rfl := Fingerprint.mem_singleton.mp hb
    cases hmatch with
    | same => exact (covers_singleton_iff hstops).mpr ⟨_, hmem, .same _⟩

end Inside

variable (haccepts : ∀ f g, accepts f g → Covers p policy f g)

section Places

omit hf

include hcompose haccepts

section Operands

variable {u v w : Operand} (hu : ∀ a ∈ p.operandSlice policy.leaves u, f.Meets p policy.leaves a)
  (hv : ∀ b ∈ p.operandSlice policy.leaves v, g.Meets p policy.leaves b)
  (hw : ∀ c ∈ p.operandSlice policy.leaves w, h.Meets p policy.leaves c)

include hu hv hw

/-- What three reads read from matches past the one in the middle. -/
theorem ReadPlace.trans (huv : ReadPlace p policy.leaves (Covers p policy) u v)
    (hvw : ReadPlace p policy.leaves accepts v w) :
    ReadPlace p policy.leaves (Covers p policy) u w := by
  cases huv with
  | same => exact hvw.mono haccepts
  | slices hcovers =>
    cases hvw with
    | same => exact .slices hcovers
    | slices hcovers' => exact .slices (hcompose _ _ _ hu hv hw hcovers hcovers')

/-- Operands at one place of three address computations match past the one in the middle, unless the
first is an external that the third one's operand has inside a leaf only. -/
theorem AddressPlace.trans_or (huv : AddressPlace p policy.leaves (Covers p policy) u v)
    (hvw : AddressPlace p policy.leaves accepts v w) :
    AddressPlace p policy.leaves (Covers p policy) u w ∨
      ∃ e y z, u = .external e ∧ v = .node y ∧ w = .node z ∧
        .external e ∈ p.operandSlice policy.leaves (.node y) ∧
        .external e ∉ p.operandSlice policy.leaves (.node z) ∧
        Covers p policy (.singleton (.external e)) (p.operandSlice policy.leaves (.node z)) := by
  cases huv with
  | same => exact .inl (hvw.mono haccepts)
  | slices hcovers =>
    cases hvw with
    | same => exact .inl (.slices hcovers)
    | slices hcovers' => exact .inl (.slices (hcompose _ _ _ hu hv hw hcovers hcovers'))
  | offset hle =>
    cases hvw with
    | same => exact .inl (.offset hle)
    | offset hle' => exact .inl (.offset (UInt64.le_trans hle hle'))
  | @named e y hmem =>
    cases hvw with
    | same => exact .inl (.named hmem)
    | @slices _ z hcovers' =>
      by_cases hnamed : .external e ∈ p.operandSlice policy.leaves (.node z)
      · exact .inl (.named hnamed)
      · have hcovers : Covers p policy (.singleton (.external e))
            (p.operandSlice policy.leaves (.node y)) :=
          (covers_singleton_iff (stopsAt_external e)).mpr ⟨_, hmem, .same _⟩
        exact .inr ⟨e, y, z, rfl, rfl, rfl, hmem, hnamed,
          hcompose _ _ _ hu hv hw hcovers hcovers'⟩

end Operands

/-- Operations that match by operands do so past the one in the middle, unless an external is
misplaced in the third. -/
theorem Alike.trans_or {x y z : NodeId} {m n k : Node}
    (hx : f.Meets p policy.leaves (.node x)) (hm : p.node? x = some m)
    (hy : g.Meets p policy.leaves (.node y)) (hn : p.node? y = some n)
    (hz : h.Meets p policy.leaves (.node z)) (hk : p.node? z = some k)
    (hmn : Alike p policy.leaves (Covers p policy) m n)
    (hnk : Alike p policy.leaves accepts n k) :
    Alike p policy.leaves (Covers p policy) m k ∨ Misplaced p policy m n k := by
  have hkinds : OfOneKind m n ∧ OfOneKind n k := ⟨hmn.ofOneKind, hnk.ofOneKind⟩
  cases hmn with
  | generic hopm hopn heq =>
    cases hnk with
    | generic hopn' hopk heq' =>
      rw [hopn] at hopn'
      exact .inl (.generic hopm (hopn' ▸ hopk) (heq.trans heq'))
    | read hopn' => rw [hopn] at hopn'; cases hopn'
    | address hopn' => rw [hopn] at hopn'; cases hopn'
  | read hopm hopn hu hv hplace =>
    cases hnk with
    | generic hopn' => rw [hopn] at hopn'; cases hopn'
    | address hopn' => rw [hopn] at hopn'; cases hopn'
    | read _ hopk hv' hw hplace' =>
      obtain ⟨rfl, -⟩ := List.cons.inj (hv.symm.trans hv')
      refine .inl (.read hopm hopk hu hw (ReadPlace.trans hcompose haccepts
        (fun a ha => .behind hx hm ?_ ha) (fun b hb => .behind hy hn ?_ hb)
        (fun c hc => .behind hz hk ?_ hc) hplace hplace'))
      · exact hu ▸ List.mem_cons_self
      · exact hv ▸ List.mem_cons_self
      · exact hw ▸ List.mem_cons_self
  | address hopm hopn hlength hplaces =>
    cases hnk with
    | generic hopn' => rw [hopn] at hopn'; cases hopn'
    | read hopn' => rw [hopn] at hopn'; cases hopn'
    | address _ hopk hlength' hplaces' =>
      by_cases hplaced : Misplaced p policy m n k
      · exact .inr hplaced
      refine .inl (.address hopm hopk (hlength.trans hlength') ?_)
      rintro ⟨u, w⟩ huw
      obtain ⟨i, hi⟩ := List.mem_iff_getElem?.mp huw
      obtain ⟨hu, hw⟩ := List.getElem?_zip_eq_some.mp hi
      have hlt : i < n.operands.length := hlength ▸ (List.getElem?_eq_some_iff.mp hu).1
      have hv := List.getElem?_eq_getElem hlt
      have huv := hplaces (u, n.operands[i])
        (List.mem_of_getElem? (List.getElem?_zip_eq_some.mpr ⟨hu, hv⟩))
      have hvw := hplaces' (n.operands[i], w)
        (List.mem_of_getElem? (List.getElem?_zip_eq_some.mpr ⟨hv, hw⟩))
      refine (AddressPlace.trans_or hcompose haccepts
        (fun a ha => .behind hx hm (List.mem_of_getElem? hu) ha)
        (fun b hb => .behind hy hn (List.mem_of_getElem? hv) hb)
        (fun c hc => .behind hz hk (List.mem_of_getElem? hw) hc) huv hvw).resolve_right ?_
      rintro ⟨e, y', z', hu', hv', hw', hrest⟩
      dsimp only at hu' hv' hw'
      exact hplaced ⟨hopm, hkinds.1, hkinds.2, i, e, y', z', hu' ▸ hu, hv' ▸ hv, hw' ▸ hw, hrest⟩

end Places

variable (hg : ∀ b ∈ g, p.StopsAt policy.leaves b) (hh : ∀ c ∈ h, p.StopsAt policy.leaves c)

include hf hcompose haccepts hg hh

/-- Leaves match past the one in the middle, unless that obstructs them. -/
theorem LeafMatches.trans_or {a b c : Leaf} (ha : f.Meets p policy.leaves a)
    (hb : g.Meets p policy.leaves b) (hc : h.Meets p policy.leaves c)
    (hab : LeafMatches p policy.leaves (Covers p policy) a b)
    (hbc : LeafMatches p policy.leaves accepts b c) :
    LeafMatches p policy.leaves (Covers p policy) a c ∨
      ∃ x y z, a = .node x ∧ b = .node y ∧ c = .node z ∧ Obstructs p policy x y z := by
  cases hbc with
  | same => exact .inl hab
  | @alike y z n k hn hk hnk =>
    cases hab with
    | same => exact .inl (.alike hn hk (hnk.mono haccepts))
    | @alike x _ m n' hm hn' hmn =>
      obtain rfl := Option.some.inj (hn.symm.trans hn')
      rcases hmn.trans_or hcompose haccepts ha hm hb hn hc hk hnk with hmk | hplaced
      · exact .inl (.alike hm hk hmk)
      · exact .inr ⟨x, y, z, rfl, rfl, rfl, hplaced.byAddress (stopsAt_of_meets hh hc) hk,
          m, n, k, hm, hn, hk, .inr hplaced⟩
    | @inside _ _ n' hn' hother hinside =>
      obtain rfl := Option.some.inj (hn.symm.trans hn')
      refine .inl (.inside hk (fun x m hx hm hkind => hother x m hx hm ?_)
        (foundInside_of_alike hf hcompose ha hb hn hc hk hinside hnk))
      exact hkind.trans hnk.ofOneKind.symm
  | @inside _ z k hk hother hinside =>
    have hfound := foundInside_of_matches hf hcompose ha hb hc hk hab hinside
    by_cases hkind : ∃ x m, a = .node x ∧ p.node? x = some m ∧ OfOneKind m k
    · -- operations of one kind are not looked into, so the matches before must have been
      obtain ⟨x, m, rfl, hm, hkind⟩ := hkind
      cases hab with
      | same => exact absurd hkind (hother x m rfl hm)
      | alike hm' hn hmn =>
        obtain rfl := Option.some.inj (hm.symm.trans hm')
        exact absurd (hmn.ofOneKind.symm.trans hkind) (hother _ _ rfl hn)
      | @inside _ y n hn hother' hinside' =>
        have hx := stopsAt_of_meets hf ha
        obtain ⟨hleaves, hnested⟩ := nested_of_ofOneKind hkind (hother' x m rfl hm)
          (opcode_of_foundInside hx (stopsAt_of_meets hg hb) hn hinside')
          (opcode_of_foundInside hx (stopsAt_of_meets hh hc) hk hfound)
        exact .inr ⟨x, y, z, rfl, rfl, rfl, hleaves, m, n, k, hm, hn, hk, .inl hnested⟩
    · exact .inl (.inside hk (fun x m hx hm hone => hkind ⟨x, m, hx, hm, hone⟩) hfound)

end Composition

section Blocking

variable {p : Program} {policy : MatchPolicy} {f g h : Fingerprint}
  (hf : ∀ a ∈ f, p.StopsAt policy.leaves a) (hg : ∀ b ∈ g, p.StopsAt policy.leaves b)
  (hh : ∀ c ∈ h, p.StopsAt policy.leaves c)
  (hfree : ∀ x y z, f.Meets p policy.leaves (.node x) → g.Meets p policy.leaves (.node y) →
    h.Meets p policy.leaves (.node z) → ¬ Blocked p policy x y z)

include hf hg hh hfree

/-- Unless some operation that is met blocks it, covering composes with the comparison within any
number of levels. -/
theorem composes_coversWithin (levels : Nat) :
    Composes p policy f g h (CoversWithin p policy levels) := by
  -- on the levels of the second comparison; the first may use as many as it likes at each step
  induction levels with
  | zero => exact fun _ _ _ _ _ _ _ hwithin => absurd hwithin not_coversWithin_zero
  | succ levels ih =>
    intro f' g' h' hf' hg' hh' hcovers hwithin
    have hstops : ∀ a ∈ f', p.StopsAt policy.leaves a := fun a ha => stopsAt_of_meets hf (hf' a ha)
    have hstops' : ∀ b ∈ g', p.StopsAt policy.leaves b := fun b hb => stopsAt_of_meets hg (hg' b hb)
    have hweaken : ∀ f g, CoversWithin p policy levels f g → Covers p policy f g :=
      fun _ _ h => ⟨levels, h⟩
    obtain ⟨hfew, hleft⟩ := (covers_iff hstops).mp hcovers
    obtain ⟨hfew', hright⟩ := (coversWithin_succ_iff hstops').mp hwithin
    obtain ⟨hnonempty, hsize⟩ := tooFew_eq_false_iff.mp hfew
    refine (covers_iff hstops).mpr ⟨tooFew_eq_false_iff.mpr ⟨hnonempty,
      Nat.le_trans hsize (tooFew_eq_false_iff.mp hfew').2⟩, fun a ha => ?_⟩
    obtain ⟨b, hb, hab⟩ := hleft a ha
    obtain ⟨c, hc, hbc⟩ := hright b hb
    refine ⟨c, hc, Classical.byContradiction fun hbroken => ?_⟩
    obtain ⟨x, y, z, rfl, rfl, rfl, hobstructs⟩ := (LeafMatches.trans_or hf ih hweaken hg hh
      (hf' a ha) (hg' b hb) (hh' c hc) hab hbc).resolve_left hbroken
    exact hfree x y z (hf' _ ha) (hg' _ hb) (hh' _ hc)
      { left := (covers_singletons_iff (hstops _ ha)).mpr hab
        right := (covers_singletons_iff (hstops' _ hb)).mpr (hbc.mono hweaken)
        broken := mt (covers_singletons_iff (hstops _ ha)).mp hbroken
        obstructs := hobstructs }

end Blocking

/-- Of three slices, the first is covered by the second and the second by the third. Then the first
is covered by the third, unless comparing them meets three operations of which the second one
obstructs the other two. By value none does. -/
theorem covers_trans_or_blocked (p : Program) (policy : MatchPolicy) (u v w : Operand)
    (huv : Covers p policy (p.operandSlice policy.leaves u) (p.operandSlice policy.leaves v))
    (hvw : Covers p policy (p.operandSlice policy.leaves v) (p.operandSlice policy.leaves w)) :
    Covers p policy (p.operandSlice policy.leaves u) (p.operandSlice policy.leaves w) ∨
      ∃ x y z, (p.operandSlice policy.leaves u).Meets p policy.leaves (.node x) ∧
        (p.operandSlice policy.leaves v).Meets p policy.leaves (.node y) ∧
        (p.operandSlice policy.leaves w).Meets p policy.leaves (.node z) ∧
        Blocked p policy x y z := by
  by_cases hmet : ∃ x y z, (p.operandSlice policy.leaves u).Meets p policy.leaves (.node x) ∧
      (p.operandSlice policy.leaves v).Meets p policy.leaves (.node y) ∧
      (p.operandSlice policy.leaves w).Meets p policy.leaves (.node z) ∧ Blocked p policy x y z
  · exact .inr hmet
  · obtain ⟨levels, hwithin⟩ := hvw
    refine .inl (composes_coversWithin (fun _ => stopsAt_of_mem_operandSlice)
      (fun _ => stopsAt_of_mem_operandSlice) (fun _ => stopsAt_of_mem_operandSlice) ?_ levels
      _ _ _ (fun _ => .own) (fun _ => .own) (fun _ => .own) huv hwithin)
    exact fun x y z hx hy hz hblocked => hmet ⟨x, y, z, hx, hy, hz, hblocked⟩

open Build in
/-- An index, the slot of a table there, and what the slot holds; an address, what it holds, and the
address that makes; an address and two computed from it; and three addresses of which the first has
an external for its base, the second a sum with it, and the third a sum of what it points at. -/
def detours : Program :=
  let steps : Build Unit := do
    let main ← procedure "main"
    let body ← block main
    let base ← external "base"
    -- a read inside an address inside a read
    let index ← operation body .memoryRead [.constant (.symbol "index")]
    let slot ← operation body .addressComputation [.constant (.symbol "table"), .node index]
    let _ ← operation body .memoryRead [.node slot]
    -- an address inside a read inside an address, and inside one with more offsets
    let start ← operation body .addressComputation [.external base, .constant (.int 8)]
    let link ← operation body .memoryRead [.node start]
    let _ ← operation body .addressComputation [.node link, .constant (.int 0)]
    let cell ← operation body .addressComputation
      [.node start, .constant (.int 0), .constant (.int 4)]
    let _ ← operation body .addressComputation [.node cell, .constant (.int 0)]
    -- an external, a sum that has it for a leaf, and a sum that has it inside a leaf
    let head ← operation body .memoryRead [.external base]
    let near ← operation body (.generic "add") [.external base, .node head]
    let again ← operation body .memoryRead [.external base]
    let far ← operation body (.generic "add") [.node head, .node again]
    let _ ← operation body .addressComputation [.external base, .constant (.int 0)]
    let _ ← operation body .addressComputation [.node near, .constant (.int 0)]
    let _ ← operation body .addressComputation [.node far, .constant (.int 0)]
    -- and a list with one more step
    let _ ← operation body .memoryRead [.node head]
  (steps.run.run { name := "detours" }).2

/-- By value, the base is covered by what it points at and that by the next one; and so the base is
covered by the next one. -/
theorem detours_covers_trans :
    Covers detours ⟨.value, .exact⟩ (detours.operandSlice .value (.external ⟨0⟩))
      (detours.operandSlice .value (.node ⟨8⟩)) ∧
    Covers detours ⟨.value, .exact⟩ (detours.operandSlice .value (.node ⟨8⟩))
      (detours.operandSlice .value (.node ⟨15⟩)) ∧
    Covers detours ⟨.value, .exact⟩ (detours.operandSlice .value (.external ⟨0⟩))
      (detours.operandSlice .value (.node ⟨15⟩)) := by
  have hleft : Covers detours ⟨.value, .exact⟩
      (detours.operandSlice .value (.external ⟨0⟩)) (detours.operandSlice .value (.node ⟨8⟩)) :=
    ⟨4, by decide +kernel⟩
  have hright : Covers detours ⟨.value, .exact⟩
      (detours.operandSlice .value (.node ⟨8⟩)) (detours.operandSlice .value (.node ⟨15⟩)) :=
    ⟨4, by decide +kernel⟩
  refine ⟨hleft, hright, (covers_trans_or_blocked detours ⟨.value, .exact⟩ _ _ _ hleft
    hright).resolve_right ?_⟩
  rintro ⟨_, _, _, _, _, _, hblocked⟩
  cases hblocked.obstructs.1

/-- Each of three slices is covered by the next one, but the first is not covered by the last. -/
def Detour (p : Program) (policy : MatchPolicy) (u v w : Operand) : Prop :=
  Covers p policy (p.operandSlice policy.leaves u) (p.operandSlice policy.leaves v) ∧
    Covers p policy (p.operandSlice policy.leaves v) (p.operandSlice policy.leaves w) ∧
    ¬ Covers p policy (p.operandSlice policy.leaves u) (p.operandSlice policy.leaves w)

/-- By address there are detours over an address between reads, over a read or an address of another
kind between addresses, and over an address that has an external for a leaf of its base. -/
theorem detours_not_covers_trans :
    Detour detours ⟨.address, .structural⟩ (.node ⟨0⟩) (.node ⟨1⟩) (.node ⟨2⟩) ∧
    Detour detours ⟨.address, .structural⟩ (.node ⟨3⟩) (.node ⟨4⟩) (.node ⟨5⟩) ∧
    Detour detours ⟨.address, .structural⟩ (.node ⟨3⟩) (.node ⟨6⟩) (.node ⟨7⟩) ∧
    Detour detours ⟨.address, .structural⟩ (.node ⟨12⟩) (.node ⟨13⟩) (.node ⟨14⟩) := by
  -- within eight levels nothing is cut off, so one run refutes every number of them
  refine ⟨?_, ?_, ?_, ?_⟩ <;>
    exact ⟨⟨8, by decide +kernel⟩, ⟨8, by decide +kernel⟩,
      mt (covers_iff_of_cuts 8 (by decide +kernel)).mp (by decide +kernel)⟩

end Match

end GuardElision
