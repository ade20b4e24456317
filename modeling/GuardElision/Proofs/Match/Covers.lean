import GuardElision.Proofs.Match.Rules

/-!
# Covering in any number of levels

One fingerprint is covered by another if the comparison accepts them within some number of levels.
A larger number never hurts, so one number serves all the parts of a comparison, and covering obeys
the rules for two leaves with covering itself in the place of the comparison further down. And a
comparison that was not cut off decides it.
-/

namespace GuardElision

namespace Match

open Compare Program

/-- Within some number of levels, a fingerprint is covered by another. -/
def Covers (p : Program) (policy : MatchPolicy) (f g : Fingerprint) : Prop :=
  ∃ levels, (sameLocation p policy levels f g).verdict = true

theorem tooFew_eq_false_iff {f g : Fingerprint} :
    tooFew f g = false ↔ f.leaves ≠ [] ∧ f.size ≤ g.size := by
  simp [tooFew, Fingerprint.isEmpty]

/-- If each item has a number of levels from which on something holds of it, then there is one such
number for all of them. -/
theorem exists_levels {α : Type} {holds : Nat → α → Prop} {items : List α}
    (hmono : ∀ a {n k}, n ≤ k → holds n a → holds k a) (h : ∀ a ∈ items, ∃ n, holds n a) :
    ∃ n, ∀ a ∈ items, holds n a := by
  induction items with
  | nil => exact ⟨0, nofun⟩
  | cons a rest ih =>
    obtain ⟨n, hn⟩ := h a List.mem_cons_self
    obtain ⟨k, hk⟩ := ih fun b hb => h b (List.mem_cons_of_mem a hb)
    refine ⟨max n k, List.forall_mem_cons.mpr ⟨hmono a (Nat.le_max_left n k) hn, fun b hb => ?_⟩⟩
    exact hmono b (Nat.le_max_right n k) (hk b hb)

section Levels

variable {p : Program} {policy : MatchPolicy}

/-- The comparison within a number of levels. -/
abbrev CoversWithin (p : Program) (policy : MatchPolicy) (levels : Nat) :
    Fingerprint → Fingerprint → Prop :=
  Accepts (sameLocation p policy levels)

theorem CoversWithin.mono {n k : Nat} (hle : n ≤ k) {f g : Fingerprint}
    (h : CoversWithin p policy n f g) : CoversWithin p policy k f g :=
  (deepens_sameLocation p policy hle f g).accepts h

/-- A comparison that was not cut off has settled the matter for every number of levels. -/
theorem covers_iff_of_cuts (levels : Nat) {f g : Fingerprint}
    (hcuts : (sameLocation p policy levels f g).cuts = 0) :
    Covers p policy f g ↔ (sameLocation p policy levels f g).verdict = true := by
  refine ⟨fun ⟨more, hmore⟩ => ?_, fun h => ⟨levels, h⟩⟩
  rcases Nat.le_total levels more with hle | hle
  · exact ((deepens_sameLocation p policy hle f g).settled hcuts).1 ▸ hmore
  · exact CoversWithin.mono hle hmore

/-- Nothing is covered within no levels. -/
theorem not_coversWithin_zero {f g : Fingerprint} : ¬ CoversWithin p policy 0 f g := by
  unfold CoversWithin Accepts sameLocation
  split <;> exact Bool.false_ne_true

/-- One level down, the leaves are matched one by one. -/
theorem coversWithin_succ_iff {levels : Nat} {f g : Fingerprint}
    (hf : ∀ a ∈ f, p.StopsAt policy.leaves a) :
    CoversWithin p policy (levels + 1) f g ↔ tooFew f g = false ∧
      ∀ a ∈ f, ∃ b ∈ g, LeafMatches p policy.leaves (CoversWithin p policy levels) a b := by
  refine sameLocation_succ_iff.trans (and_congr_right fun _ => forall₂_congr fun a ha => ?_)
  refine exists_congr fun b => and_congr_right fun _ => ?_
  exact sameLeaf_iff (steady_sameLocation p policy levels) (hf a ha)

theorem AddressPlace.exists_levels {u v : Operand}
    (h : AddressPlace p policy.leaves (Covers p policy) u v) :
    ∃ levels, AddressPlace p policy.leaves (CoversWithin p policy levels) u v := by
  cases h with
  | same => exact ⟨0, .same u⟩
  | offset hle => exact ⟨0, .offset hle⟩
  | named hmem => exact ⟨0, .named hmem⟩
  | slices hcovers =>
    obtain ⟨levels, hcovers⟩ := hcovers
    exact ⟨levels, .slices hcovers⟩

/-- Leaves that match with any number of levels for each part match within one number of them. -/
theorem LeafMatches.exists_levels {a b : Leaf}
    (h : LeafMatches p policy.leaves (Covers p policy) a b) :
    ∃ levels, LeafMatches p policy.leaves (CoversWithin p policy levels) a b := by
  cases h with
  | same => exact ⟨0, .same a⟩
  | inside hy hkind hinside =>
    obtain ⟨hmerge, hu, hconstant, levels, hcovers⟩ := hinside
    exact ⟨levels, .inside hy hkind (.operand hmerge hu hconstant hcovers)⟩
  | @alike x y m n hx hy halike =>
    cases halike with
    | generic hm hn heq => exact ⟨0, .alike hx hy (.generic hm hn heq)⟩
    | read hm hn hu hv hplace =>
      cases hplace with
      | same => exact ⟨0, .alike hx hy (.read hm hn hu hv (.same _))⟩
      | slices hcovers =>
        obtain ⟨levels, hcovers⟩ := hcovers
        exact ⟨levels, .alike hx hy (.read hm hn hu hv (.slices hcovers))⟩
    | address hm hn hlength hplaces =>
      have hcommon : ∃ levels, ∀ pair ∈ m.operands.zip n.operands,
          AddressPlace p policy.leaves (CoversWithin p policy levels) pair.1 pair.2 := by
        refine Match.exists_levels (fun pair _ _ hle hplace => ?_) fun pair hpair =>
          (hplaces pair hpair).exists_levels
        exact hplace.mono fun _ _ => CoversWithin.mono hle
      obtain ⟨levels, hplaces⟩ := hcommon
      exact ⟨levels, .alike hx hy (.address hm hn hlength hplaces)⟩

/-- A fingerprint is covered when there are leaves enough and each of its leaves is matched. -/
theorem covers_iff {f g : Fingerprint} (hf : ∀ a ∈ f, p.StopsAt policy.leaves a) :
    Covers p policy f g ↔ tooFew f g = false ∧
      ∀ a ∈ f, ∃ b ∈ g, LeafMatches p policy.leaves (Covers p policy) a b := by
  constructor
  · rintro ⟨levels, h⟩
    cases levels with
    | zero => exact absurd h not_coversWithin_zero
    | succ levels =>
      obtain ⟨hfew, hall⟩ := (coversWithin_succ_iff hf).mp h
      refine ⟨hfew, fun a ha => ?_⟩
      obtain ⟨b, hb, hmatch⟩ := hall a ha
      exact ⟨b, hb, hmatch.mono fun _ _ hcovers => ⟨levels, hcovers⟩⟩
  · rintro ⟨hfew, hall⟩
    have hcommon : ∃ levels, ∀ a ∈ f.leaves, ∃ b ∈ g,
        LeafMatches p policy.leaves (CoversWithin p policy levels) a b := by
      refine exists_levels (fun a _ _ hle => ?_) fun a ha => ?_
      · rintro ⟨b, hb, hmatch⟩
        exact ⟨b, hb, hmatch.mono fun _ _ => CoversWithin.mono hle⟩
      · obtain ⟨b, hb, hmatch⟩ := hall a ha
        obtain ⟨levels, hmatch⟩ := hmatch.exists_levels
        exact ⟨levels, b, hb, hmatch⟩
    obtain ⟨levels, hall⟩ := hcommon
    exact ⟨levels + 1, (coversWithin_succ_iff hf).mpr ⟨hfew, hall⟩⟩

/-- A single leaf is covered when some leaf matches it. -/
theorem covers_singleton_iff {a : Leaf} {g : Fingerprint} (ha : p.StopsAt policy.leaves a) :
    Covers p policy (.singleton a) g ↔
      ∃ b ∈ g, LeafMatches p policy.leaves (Covers p policy) a b := by
  have hall : ∀ leaf ∈ Fingerprint.singleton a, p.StopsAt policy.leaves leaf := by
    intro leaf hleaf
    obtain rfl := Fingerprint.mem_singleton.mp hleaf
    exact ha
  rw [covers_iff hall]
  constructor
  · exact fun h => h.2 a (Fingerprint.mem_singleton.mpr rfl)
  · rintro ⟨b, hb, hmatch⟩
    have hpositive : 1 ≤ g.size := List.length_pos_of_mem hb
    refine ⟨tooFew_eq_false_iff.mpr ⟨List.cons_ne_nil _ _, hpositive⟩, fun leaf hleaf => ?_⟩
    obtain rfl := Fingerprint.mem_singleton.mp hleaf
    exact ⟨b, hb, hmatch⟩

/-- Between single leaves, covering is matching. -/
theorem covers_singletons_iff {a b : Leaf} (ha : p.StopsAt policy.leaves a) :
    Covers p policy (.singleton a) (.singleton b) ↔
      LeafMatches p policy.leaves (Covers p policy) a b := by
  rw [covers_singleton_iff ha]
  simp

end Levels

end Match

end GuardElision
