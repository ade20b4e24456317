import GuardElision.Match.Shape
import GuardElision.Proofs.Match.Session

/-!
# Same shape composes

What a comparison of shapes decides, spelled out one level at a time: two operands are the
same, or they are comparable operations whose operands have the same shape, place by place,
one level further down. The relation is symmetric and transitive within any fixed number of levels.
-/

namespace GuardElision.Match

open Compare

/-- Two comparable operations within a number of levels: there is a level left for their
operands, and these have the same shape place by place. -/
def SameParts (p : Program) (levels : Nat) (m n : Node) : Prop :=
  ∃ deeper, levels = deeper + 1 ∧ ∀ (i : Nat) (u v : Operand), m.operands[i]? = some u →
    n.operands[i]? = some v → (sameShape p deeper u v).verdict = true

private theorem verdict_allM_sameShape_iff (p : Program) (deeper : Nat) (m n : Node) :
    ((m.operands.zip n.operands).allM fun (u, v) => sameShape p deeper u v).verdict = true ↔
      SameParts p (deeper + 1) m n := by
  rw [verdict_allM fun (u, v) => steady_sameShape p deeper u v, List.all_eq_true]
  constructor
  · intro h
    refine ⟨deeper, rfl, fun i u v hu hv => ?_⟩
    exact h (u, v) (List.mem_of_getElem? (List.getElem?_zip_eq_some.mpr ⟨hu, hv⟩))
  · rintro ⟨_, hlevels, h⟩ ⟨u, v⟩ hmem
    obtain rfl := Nat.succ.inj hlevels
    obtain ⟨i, hi⟩ := List.mem_iff_getElem?.mp hmem
    obtain ⟨hu, hv⟩ := List.getElem?_zip_eq_some.mp hi
    exact h i u v hu hv

/-- Of two lists of one length, every member of the first has a partner in the second. -/
theorem exists_mem_zip {a b : List Operand} (hlength : a.length = b.length) {u : Operand}
    (hu : u ∈ a) : ∃ v ∈ b, (u, v) ∈ a.zip b := by
  obtain ⟨i, hi⟩ := List.mem_iff_getElem?.mp hu
  have hlt : i < b.length := hlength ▸ (List.getElem?_eq_some_iff.mp hi).1
  have hv := List.getElem?_eq_getElem hlt
  exact ⟨b[i], List.getElem_mem hlt, List.mem_of_getElem? (List.getElem?_zip_eq_some.mpr ⟨hi, hv⟩)⟩

/-- The operands at the same place have the same shape one level further down. -/
theorem SameParts.sameShape_of_mem_zip {p : Program} {levels : Nat} {m n : Node}
    (h : SameParts p (levels + 1) m n)
    {u v : Operand} (hpair : (u, v) ∈ m.operands.zip n.operands) :
    (sameShape p levels u v).verdict = true := by
  obtain ⟨deeper, hlevels, hparts⟩ := h
  obtain rfl := Nat.succ.inj hlevels
  obtain ⟨i, hi⟩ := List.mem_iff_getElem?.mp hpair
  obtain ⟨hu, hv⟩ := List.getElem?_zip_eq_some.mp hi
  exact hparts i u v hu hv

/-- Operands have the same shape when they are equal, or comparable operations whose operands
have the same shape one level further down. -/
theorem sameShape_verdict_iff (p : Program) (levels : Nat) (a b : Operand) :
    (sameShape p levels a b).verdict = true ↔
      a = b ∨ ∃ x y m n, a = .node x ∧ b = .node y ∧ p.node? x = some m ∧ p.node? y = some n ∧
        comparable m n = true ∧ SameParts p levels m n := by
  constructor
  · intro h
    rw [sameShape.eq_def] at h
    dsimp only at h
    split at h
    · next hab => exact .inl hab
    · split at h
      · next x y _ =>
        split at h
        · next m n hx hy =>
          split at h
          · next hc =>
            refine .inr ⟨x, y, m, n, rfl, rfl, hx, hy, hc, ?_⟩
            cases levels with
            | zero => cases h
            | succ deeper => exact (verdict_allM_sameShape_iff p deeper m n).mp h
          · cases h
        · cases h
      · cases h
  · rintro (rfl | ⟨x, y, m, n, rfl, rfl, hx, hy, hc, hparts⟩)
    · rw [sameShape.eq_def]
      dsimp only
      rw [if_pos rfl]
      rfl
    · obtain ⟨deeper, rfl, hsame⟩ := hparts
      rw [sameShape.eq_def]
      dsimp only
      split
      · rfl
      · rw [hx, hy]
        dsimp only
        rw [if_pos hc]
        exact (verdict_allM_sameShape_iff p deeper m n).mpr ⟨deeper, rfl, hsame⟩

theorem comparable_iff (m n : Node) : comparable m n = true ↔
    m.opcode = n.opcode ∧ m.isMerge = false ∧ m.operands.length = n.operands.length ∧
      m.operands ≠ [] := by
  simp [comparable, and_assoc]

theorem comparable_symm {m n : Node} (h : comparable m n = true) : comparable n m = true := by
  obtain ⟨hop, hmerge, hlength, hne⟩ := (comparable_iff m n).mp h
  refine (comparable_iff n m).mpr ⟨hop.symm, ?_, hlength.symm, fun hnil => hne ?_⟩
  · simpa [Node.isMerge, hop] using hmerge
  · rw [← List.length_eq_zero_iff, hlength, hnil]
    rfl

theorem comparable_trans {m n k : Node} (hmn : comparable m n = true)
    (hnk : comparable n k = true) : comparable m k = true := by
  obtain ⟨hop, hmerge, hlength, hne⟩ := (comparable_iff m n).mp hmn
  obtain ⟨hop', _, hlength', _⟩ := (comparable_iff n k).mp hnk
  exact (comparable_iff m k).mpr ⟨hop.trans hop', hmerge, hlength.trans hlength', hne⟩

theorem sameShape_refl (p : Program) (levels : Nat) (a : Operand) :
    (sameShape p levels a a).verdict = true :=
  (sameShape_verdict_iff p levels a a).mpr (.inl rfl)

/-- Within a number of levels, an operand has the same shape as what has the same shape as it. -/
theorem sameShape_symm {p : Program} {levels : Nat} {a b : Operand}
    (h : (sameShape p levels a b).verdict = true) : (sameShape p levels b a).verdict = true := by
  induction levels using Nat.strongRecOn generalizing a b with
  | ind levels ih =>
    rcases (sameShape_verdict_iff p levels a b).mp h with
      rfl | ⟨x, y, m, n, rfl, rfl, hx, hy, hmn, deeper, rfl, hparts⟩
    · exact h
    refine (sameShape_verdict_iff p _ _ _).mpr
      (.inr ⟨y, x, n, m, rfl, rfl, hy, hx, comparable_symm hmn, deeper, rfl, fun i v u hv hu => ?_⟩)
    exact ih deeper (Nat.lt_succ_self deeper) (hparts i u v hu hv)

/-- Within a number of levels, what has the same shape as an operand of the same shape has
itself the same shape. -/
theorem sameShape_trans {p : Program} {levels : Nat} {a b c : Operand}
    (hab : (sameShape p levels a b).verdict = true)
    (hbc : (sameShape p levels b c).verdict = true) :
    (sameShape p levels a c).verdict = true := by
  induction levels using Nat.strongRecOn generalizing a b c with
  | ind levels ih =>
    rcases (sameShape_verdict_iff p levels a b).mp hab with
      rfl | ⟨x, y, m, n, rfl, rfl, hx, hy, hmn, deeper, rfl, hparts⟩
    · exact hbc
    rcases (sameShape_verdict_iff p _ _ c).mp hbc with
      rfl | ⟨y', z, n', k, heq, rfl, hy', hz, hnk, deeper', hlevels, hparts'⟩
    · exact hab
    obtain rfl := Operand.node.inj heq
    obtain rfl := Option.some.inj (hy.symm.trans hy')
    obtain rfl := Nat.succ.inj hlevels
    refine (sameShape_verdict_iff p _ _ _).mpr (.inr
      ⟨x, z, m, k, rfl, rfl, hx, hz, comparable_trans hmn hnk, deeper, rfl, fun i u w hu hw => ?_⟩)
    -- the middle operation has an operand at every place where the first one has
    have hi : i < n.operands.length := by
      rw [← ((comparable_iff m n).mp hmn).2.2.1]
      exact (List.getElem?_eq_some_iff.mp hu).1
    have hv := List.getElem?_eq_getElem hi
    exact ih deeper (Nat.lt_succ_self deeper) (hparts i u _ hu hv) (hparts' i _ w hv hw)

end GuardElision.Match

namespace GuardElision.Strategy

/-- Where counts are trusted, equal counts are all that is asked for. -/
theorem subsumed_of_trustsCounts {s : Strategy} (p : Program) (candidate coverer : Check)
    {source : Source} (h : source = .coverage ∧ s.level.trustsCounts = true) :
    s.subsumed p candidate coverer source = pure true := by
  rw [subsumed, if_pos h]

/-- At the two levels that compare shapes, counts are not trusted. -/
theorem subsumed_of_isShallow {s : Strategy} (hs : s.level.isShallow = true)
    (p : Program) (candidate coverer : Check) (source : Source) :
    s.subsumed p candidate coverer source =
      match p.condition? candidate.branch, p.condition? coverer.branch with
      | some a, some b => Match.sameShape p s.maxDepth a b
      | _, _ => pure false := by
  have hcounts : ¬ (source = .coverage ∧ s.level.trustsCounts = true) := by
    rintro ⟨_, htrusts⟩
    cases hlevel : s.level <;>
      simp [hlevel, Level.isShallow, Level.trustsCounts] at hs htrusts
  rw [subsumed, if_neg hcounts]
  exact if_pos hs

end GuardElision.Strategy
