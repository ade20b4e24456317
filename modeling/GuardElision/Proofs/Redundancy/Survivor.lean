import GuardElision.Proofs.Flow.Dominance
import GuardElision.Proofs.Match.Shape
import GuardElision.Proofs.Redundancy.Grounded

/-!
# Who covers an eliminated check at the end

In the third phase the coverer of a check may be eliminated later, in favour of a check that
covers it in turn. Any relation that holds between a check and its coverer, and that passes
from a coverer to the coverer's coverer, therefore holds between an eliminated check and one
that is left at the end (`survivor_of_growth`). Same pattern passes on as it is. Where the
blocks lie does not: dominance and post-dominance compose only up to a `Program.Gap`.
-/

namespace GuardElision

/-- The block from which a sanitizer check of a classifier takes effect. -/
def Classifier.effectiveBlock? (k : Classifier) (p : Program) (c : Check) : Option BlockId :=
  p.effectiveBlock? c (k.coneOf p c)

/-- There are two blocks, and the first dominates or post-dominates the second. -/
def Program.OnEveryRun (p : Program) (coverer candidate : Option BlockId) : Prop :=
  ∃ b a, coverer = some b ∧ candidate = some a ∧
    Phases.onEveryRun (.ofProgram p) b a = true

instance (p : Program) : (x y : Option BlockId) → Decidable (p.OnEveryRun x y)
  | some b, some a =>
    decidable_of_iff (Phases.onEveryRun (.ofProgram p) b a = true)
      ⟨fun h => ⟨b, a, rfl, rfl, h⟩, fun ⟨_, _, hb, ha, h⟩ =>
        Option.some.inj hb ▸ Option.some.inj ha ▸ h⟩
  | none, _ => isFalse fun ⟨_, _, h, _⟩ => nomatch h
  | some _, none => isFalse fun ⟨_, _, _, h, _⟩ => nomatch h

/-- The conditions of two checks have the same shape within a number of levels. -/
def Program.SamePattern (p : Program) (levels : Nat) (c d : Check) : Prop :=
  ∃ x y, p.condition? c.branch = some x ∧ p.condition? d.branch = some y ∧
    (Match.sameShape p levels x y).verdict = true

theorem Program.SamePattern.trans {p : Program} {levels : Nat} {a b c : Check}
    (hab : p.SamePattern levels a b) (hbc : p.SamePattern levels b c) :
    p.SamePattern levels a c := by
  obtain ⟨x, y, hx, hy, hxy⟩ := hab
  obtain ⟨y', z, hy', hz, hyz⟩ := hbc
  obtain rfl := Option.some.inj (hy.symm.trans hy')
  exact ⟨x, z, hx, hz, Match.sameShape_trans hxy hyz⟩

/-- At the careful levels, what one check covers by dominance has its pattern. -/
theorem Strategy.samePattern_of_subsumed {s : Strategy} (hs : s.level.isShallow = true)
    {p : Program} {candidate coverer : Check}
    (h : (s.subsumed p candidate coverer .dominance).verdict = true) :
    p.SamePattern s.maxDepth candidate coverer := by
  have hsource : ¬ (Source.dominance = .coverage ∧ s.level.trustsCounts = true) := by simp
  rw [subsumed, if_neg hsource, if_pos hs] at h
  split at h
  · next x y hx hy => exact ⟨x, y, hx, hy, h⟩
  · cases h

namespace Dominance

theorem onEveryRun_iff (p : Program) (b a : BlockId) :
    Phases.onEveryRun (.ofProgram p) b a = true ↔ ∃ g, Share p g b a ∧ g.OnEveryRun b a := by
  rw [Phases.onEveryRun, Bool.or_eq_true, dominates_iff, postDominates_iff]
  constructor
  · rintro (⟨g, hshare, h⟩ | ⟨g, hshare, h⟩)
    · exact ⟨g, hshare, .inl h⟩
    · exact ⟨g, hshare, .inr h⟩
  · rintro ⟨g, hshare, h | h⟩
    · exact .inl ⟨g, hshare, h⟩
    · exact .inr ⟨g, hshare, h⟩

theorem onEveryRun_of_precedes {d : Dominance} {b a : BlockId}
    (h : Phases.precedes d b a = true) : Phases.onEveryRun d b a = true := by
  simp only [Phases.precedes, Phases.onEveryRun, Bool.or_eq_true, Bool.and_eq_true] at h ⊢
  exact h.imp_right And.right

end Dominance

namespace Program

/-- Every block of every procedure lies on some run from the entry to an exit. -/
def Connected (p : Program) : Prop :=
  ∀ id g, FlowGraph.of? p id = some g → ∀ b ∈ g.blocks, g.OnSomeRun b

/-- Two blocks of one procedure, of which the first lies on some run from the entry to an exit
and the second on none. -/
def Gap (p : Program) (inside outside : Option BlockId) : Prop :=
  ∃ b a g, inside = some b ∧ outside = some a ∧ Dominance.Share p g b a ∧
    g.OnSomeRun b ∧ ¬ g.OnSomeRun a

variable {p : Program} {x y z : Option BlockId}

/-- The relation composes up to a gap between the last two blocks. -/
theorem OnEveryRun.trans_or (hzy : p.OnEveryRun z y) (hyx : p.OnEveryRun y x) :
    p.OnEveryRun z x ∨ p.Gap y x := by
  obtain ⟨c, b, rfl, rfl, hcb⟩ := hzy
  obtain ⟨_, a, hb, rfl, hba⟩ := hyx
  obtain rfl := Option.some.inj hb
  obtain ⟨g, hshare, hcb⟩ := (Dominance.onEveryRun_iff p c b).mp hcb
  obtain ⟨g', hshare', hba⟩ := (Dominance.onEveryRun_iff p b a).mp hba
  obtain ⟨rfl, hall⟩ := hshare.trans hshare'
  rcases hcb.trans_or hba with h | h
  · exact .inl ⟨c, a, rfl, rfl, (Dominance.onEveryRun_iff p c a).mpr ⟨g', hall, h⟩⟩
  · exact .inr ⟨b, a, g', rfl, rfl, hshare', h⟩

/-- There is no gap behind a gap. -/
theorem Gap.not_gap (hyx : p.Gap y x) : ¬ p.Gap z y := by
  rintro ⟨c, b, g, rfl, rfl, hshare, _, hnot⟩
  obtain ⟨_, a, g', hb, rfl, hshare', hrun, _⟩ := hyx
  obtain rfl := Option.some.inj hb
  obtain ⟨rfl, _⟩ := hshare.trans hshare'
  exact hnot hrun

/-- In a connected program no gap opens behind a block that is on record. -/
theorem Connected.not_gap (hp : p.Connected) (hyx : p.OnEveryRun y x) : ¬ p.Gap y x := by
  rintro ⟨b, a, g, rfl, rfl, hshare, _, hnot⟩
  obtain ⟨_, _, hb, ha, hba⟩ := hyx
  obtain rfl := Option.some.inj hb
  obtain rfl := Option.some.inj ha
  obtain ⟨g', ⟨id, _, howner, hg⟩, hrun⟩ := (Dominance.onEveryRun_iff p b a).mp hba
  obtain ⟨id', _, howner', hg'⟩ := hshare
  obtain rfl := Option.some.inj (howner.symm.trans howner')
  obtain rfl := Option.some.inj (hg.symm.trans hg')
  exact hnot (hp id g' hg a hrun.mem_blocks)

end Program

/-- A sanitizer check is placed in the effective block of the cone its classifier gives it. -/
theorem Inventory.Belongs.mem_placed_iff {p : Program} {k : Classifier} {checks : Inventory}
    (h : checks.Belongs p k) (c : Check) (i : Nat) (block : Option BlockId) :
    (c, i, block) ∈ Phases.placed p checks ↔
      k.sanitizer[i]? = some c ∧ k.effectiveBlock? p c = block := by
  rw [Phases.mem_placed_iff, h.sanitizer_eq, and_congr_right_iff]
  intro hget
  have hcone : checks.cones[i]? = some (k.coneOf p c) := by
    rw [h.cones_eq, List.getElem?_map, hget, Option.map_some]
  rw [hcone]
  rfl

theorem Inventory.Belongs.effectiveBlock?_of_mem_placed {p : Program} {k : Classifier}
    {checks : Inventory} (h : checks.Belongs p k) {c : Check} {i : Nat} {block : Option BlockId}
    (hmem : (c, i, block) ∈ Phases.placed p checks) :
    c ∈ checks.sanitizer ∧ k.effectiveBlock? p c = block := by
  obtain ⟨hget, hblock⟩ := (h.mem_placed_iff c i block).mp hmem
  exact ⟨h.sanitizer_eq ▸ List.mem_of_getElem? hget, hblock⟩

namespace Classifier

/-- The effective block of one sanitizer check dominates or post-dominates that of another. -/
def Accompanies (k : Classifier) (p : Program) (c a : Check) : Prop :=
  p.OnEveryRun (k.effectiveBlock? p c) (k.effectiveBlock? p a)

instance (k : Classifier) (p : Program) (c a : Check) : Decidable (k.Accompanies p c a) :=
  inferInstanceAs (Decidable (p.OnEveryRun _ _))

/-- One sanitizer check accompanies another, or a third one that accompanies it across a gap. -/
def AccompaniesUpToGap (k : Classifier) (p : Program) (c a : Check) : Prop :=
  k.Accompanies p c a ∨ ∃ b ∈ k.sanitizer, k.Accompanies p c b ∧ k.Accompanies p b a ∧
    p.Gap (k.effectiveBlock? p b) (k.effectiveBlock? p a)

/-- What accompanies a sanitizer check accompanies what that check does, up to a gap. -/
theorem Accompanies.trans_upToGap {k : Classifier} {p : Program} {a b c : Check}
    (hb : b ∈ k.sanitizer) (hcb : k.Accompanies p c b) (hba : k.AccompaniesUpToGap p b a) :
    k.AccompaniesUpToGap p c a := by
  rcases hba with hba | ⟨x, hx, hbx, hxa, hgap⟩
  · rcases hcb.trans_or hba with h | hgap
    · exact .inl h
    · exact .inr ⟨b, hb, hcb, hba, hgap⟩
  · rcases hcb.trans_or hbx with h | hgap'
    · exact .inr ⟨x, hx, h, hxa, hgap⟩
    · exact absurd hgap' hgap.not_gap

end Classifier

namespace Phases

variable {s : Strategy} {p : Program} {k : Classifier} {checks : Inventory} {e : Evidence}

/-- A sanitizer check that covers another one accompanies it. -/
theorem CoveredBySanitizer.accompanies {l : Ledger} {candidate coverer : Check} {reason : Reason}
    (h : CoveredBySanitizer s p (.ofProgram p) checks e l candidate coverer reason)
    (hb : checks.Belongs p k) :
    candidate ∈ checks.sanitizer ∧ coverer ∈ checks.sanitizer ∧
      k.Accompanies p coverer candidate := by
  obtain ⟨i, j, x, y, hcandidate, hcoverer, _, hprecedes⟩ := h.placed
  obtain ⟨hmem, hx⟩ := hb.effectiveBlock?_of_mem_placed hcandidate
  obtain ⟨hmem', hy⟩ := hb.effectiveBlock?_of_mem_placed hcoverer
  exact ⟨hmem, hmem', y, x, hy, hx, Dominance.onEveryRun_of_precedes hprecedes⟩

/-- While sanitizer checks are eliminated in favour of others, every one of them keeps a coverer
that is left, for any relation that holds at first and passes on from coverer to coverer. -/
theorem survivor_of_growth (hb : checks.Belongs p k) (covers : Check → Check → Prop)
    (hfirst : ∀ l c b reason, CoveredBySanitizer s p (.ofProgram p) checks e l b c reason →
      covers c b)
    (hpass : ∀ l c b a reason, CoveredBySanitizer s p (.ofProgram p) checks e l b c reason →
      covers b a → covers c a)
    {start l : Ledger}
    (hgrow : Ledger.Growth (SanitizerDominanceEntry s p (.ofProgram p) checks e) start l)
    {a : Check} (ha : a ∈ checks.sanitizer) {reason : Reason} (hfind : l.find? a.id = some reason)
    (hstart : start.find? a.id = none) :
    ∃ c ∈ checks.sanitizer, l.find? c.id = none ∧ covers c a := by
  induction hgrow generalizing reason with
  | still => simp [hstart] at hfind
  | @enter l id why _ hnew hallowed ih =>
    obtain ⟨b, c, rfl, hcovered⟩ := hallowed
    obtain ⟨hbmem, hcmem, _⟩ := hcovered.accompanies hb
    have hleft : (Ledger.mark l b.id why).find? c.id = none := by
      rw [Ledger.find?_mark hnew, if_neg hcovered.ids_ne, hcovered.coverer_live]
    rw [Ledger.find?_mark hnew] at hfind
    split at hfind
    · next hid =>
      obtain rfl := hb.eq_of_id_eq ha hbmem hid
      exact ⟨c, hcmem, hleft, hfirst _ c a _ hcovered⟩
    · obtain ⟨x, hx, hxleft, hcovers⟩ := ih hfind
      by_cases hid : x.id = b.id
      · -- the coverer so far is the check that is eliminated now
        obtain rfl := hb.eq_of_id_eq hx hbmem hid
        exact ⟨c, hcmem, hleft, hpass _ c x a _ hcovered hcovers⟩
      · exact ⟨x, hx, by rw [Ledger.find?_mark hnew, if_neg hid, hxleft], hcovers⟩

end Phases

namespace Analysis

open Phases

variable {s : Settings} {p : Program} {k : Classifier} {checks : Inventory}

/-- Without the two phases that rely on counts, an eliminated check is covered by a user check,
or by a sanitizer check that is left, for any relation that passes on from coverer to coverer. -/
theorem survivor (hs : s.isStaticOnly = true) (hb : checks.Belongs p k) (f : Findings)
    (covers : Check → Check → Prop)
    (hfirst : ∀ l c b reason,
      CoveredBySanitizer (strategy s) p (.ofProgram p) checks f.evidence l b c reason → covers c b)
    (hpass : ∀ l c b a reason,
      CoveredBySanitizer (strategy s) p (.ofProgram p) checks f.evidence l b c reason →
        covers b a → covers c a)
    {a : Check} (ha : a ∈ checks.sanitizer) {reason : Reason}
    (hfind : (ledger s p checks f).1.find? a.id = some reason) :
    (∃ c why, CoveredByUser (strategy s) p (.ofProgram p) checks f.evidence a c why) ∨
      ∃ c ∈ checks.sanitizer, (ledger s p checks f).1.find? c.id = none ∧ covers c a := by
  obtain ⟨l₁, l₂, l₃, _, _, hgrow₃, hgrow₄, hoff₁, hoff₂⟩ := ledger_growth s p checks f
  simp only [Settings.isStaticOnly, Bool.and_eq_true, Bool.not_eq_true'] at hs
  obtain rfl := (hoff₂ hs.2).trans (hoff₁ hs.1)
  cases hstart : l₃.find? a.id with
  | none => exact .inr (survivor_of_growth hb covers hfirst hpass hgrow₄ ha hfind hstart)
  | some why =>
    rcases hgrow₃.cases_find? hstart with h | ⟨_, b, c, hid, hcovered⟩
    · cases h
    · obtain rfl := hb.eq_of_id_eq hcovered.candidate_mem ha hid
      exact .inl ⟨c, why, hcovered⟩

private theorem onEveryRun_of_coveredByUser {e : Evidence} {a c : Check} {why : Reason}
    (h : CoveredByUser (strategy s) p (.ofProgram p) checks e a c why) :
    p.OnEveryRun (p.ownBlock? c) (p.ownBlock? a) := by
  obtain ⟨x, y, hx, hy, hrun⟩ := h.placed
  exact ⟨y, x, hy, hx, hrun⟩

/-- Wherever control flows, a sanitizer check that was eliminated without counts has a coverer
that is left and accompanies it, up to a gap. -/
theorem survivor_upToGap (hs : s.isStaticOnly = true) (hb : checks.Belongs p k) (f : Findings)
    {a : Check} (ha : a ∈ checks.sanitizer) {reason : Reason}
    (hfind : (ledger s p checks f).1.find? a.id = some reason) :
    (∃ c ∈ checks.user, p.OnEveryRun (p.ownBlock? c) (p.ownBlock? a)) ∨
      ∃ c ∈ checks.sanitizer, (ledger s p checks f).1.find? c.id = none ∧
        k.AccompaniesUpToGap p c a := by
  have hpass : ∀ l c b a why,
      CoveredBySanitizer (strategy s) p (.ofProgram p) checks f.evidence l b c why →
        k.AccompaniesUpToGap p b a → k.AccompaniesUpToGap p c a := by
    intro l c b a why hcovered hba
    obtain ⟨hmem, _, hcb⟩ := hcovered.accompanies hb
    exact hcb.trans_upToGap (hb.sanitizer_eq ▸ hmem) hba
  rcases survivor hs hb f (k.AccompaniesUpToGap p)
    (fun _ _ _ _ h => .inl (h.accompanies hb).2.2) hpass ha hfind with ⟨c, why, h⟩ | h
  · exact .inl ⟨c, h.coverer_mem, onEveryRun_of_coveredByUser h⟩
  · exact .inr h

/-- In a connected program, at the careful levels, a sanitizer check that was eliminated without
counts has a coverer of the same pattern that is left and accompanies it. -/
theorem survivor_of_connected (hs : s.isStaticOnly = true) (hlevel : s.level.isShallow = true)
    (hp : p.Connected) (hb : checks.Belongs p k) (f : Findings) {a : Check}
    (ha : a ∈ checks.sanitizer) {reason : Reason}
    (hfind : (ledger s p checks f).1.find? a.id = some reason) :
    (∃ c ∈ checks.user, p.SamePattern (strategy s).maxDepth a c ∧
        p.OnEveryRun (p.ownBlock? c) (p.ownBlock? a)) ∨
      ∃ c ∈ checks.sanitizer, (ledger s p checks f).1.find? c.id = none ∧
        p.SamePattern (strategy s).maxDepth a c ∧ k.Accompanies p c a := by
  have hpattern : ∀ {a c}, ((strategy s).subsumed p a c .dominance).verdict = true →
      p.SamePattern (strategy s).maxDepth a c :=
    fun h => Strategy.samePattern_of_subsumed hlevel h
  have hpass : ∀ l c b a why,
      CoveredBySanitizer (strategy s) p (.ofProgram p) checks f.evidence l b c why →
        p.SamePattern (strategy s).maxDepth a b ∧ k.Accompanies p b a →
          p.SamePattern (strategy s).maxDepth a c ∧ k.Accompanies p c a := by
    rintro l c b a why hcovered ⟨hsame, hba⟩
    obtain ⟨_, _, hcb⟩ := hcovered.accompanies hb
    exact ⟨hsame.trans (hpattern hcovered.subsumed),
      (hcb.trans_or hba).resolve_right (hp.not_gap hba)⟩
  rcases survivor hs hb f (fun c a => p.SamePattern (strategy s).maxDepth a c ∧ k.Accompanies p c a)
    (fun _ _ _ _ h => ⟨hpattern h.subsumed, (h.accompanies hb).2.2⟩) hpass ha hfind
    with ⟨c, why, h⟩ | h
  · exact .inl ⟨c, h.coverer_mem, hpattern h.subsumed, onEveryRun_of_coveredByUser h⟩
  · exact .inr h

end Analysis

end GuardElision
