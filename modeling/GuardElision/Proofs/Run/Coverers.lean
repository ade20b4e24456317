import GuardElision.Program.Builder
import GuardElision.Proofs.Redundancy.Survivor
import GuardElision.Proofs.Run.Outcome
import Mathlib.Logic.Relation
import Mathlib.Order.WellFounded

/-!
# Who stands for an eliminated check

What the reports of all runs have in common: following the coverers of an eliminated check
leads to a check that is left. When counts play no part, one check that is left covers the
eliminated one in a single step, as long as control can flow from the entry through the
block of the eliminated check to an exit. Without that the step may take a detour, as the
program `ladder false` shows.
-/

namespace GuardElision

open Build

/-- Three checks of one condition, each in a block of its own. The first one's block continues
in the last one's block, or else in itself for ever. -/
def ladder (onward : Bool) : Program :=
  let steps : Build Unit := do
    let main ← procedure "main"
    let start ← block main
    let middle ← block main
    let inner ← block main
    let last ← block main
    let done ← block main
    let guarded ← external "guarded"
    let other ← external "other"
    let _ ← branch start (.external other) middle last
    let _ ← branch middle (.external guarded) inner last
    let next := if onward then last else inner
    let _ ← branch inner (.external guarded) next next
    let _ ← branch last (.external guarded) done done
  (steps.run.run { name := "ladder" }).2

/-- The checks of the ladder: inside, in the middle and last. -/
def ladderChecks : List Check :=
  [⟨⟨1⟩, ⟨2⟩, .sanitizer, .generic⟩, ⟨⟨2⟩, ⟨1⟩, .sanitizer, .generic⟩,
    ⟨⟨3⟩, ⟨3⟩, .sanitizer, .generic⟩]

/-- A run on the ladder with nothing but dominance. -/
def ladderSetup (level : Level) : Setup where
  settings := { level, phases := { user := false, coverage := false, dominance := true } }
  classifier := { sanitizer := ladderChecks }
  oracle := .uniform

namespace Setup

variable {setup : Setup} {p q : Program} {source : FindingsSource} {r : Report}

/-- Whatever the settings and the findings, every eliminated check has one coverer, coverers
never go round in a circle, and following them from an eliminated check ends at a user check or
at a sanitizer check that is not eliminated. -/
theorem coverers_end (h : setup.runFrom p source = .ok (q, r)) :
    (∀ id b c, r.EliminatedBy id b → r.EliminatedBy id c → b = c) ∧
    (∀ id, ¬ Relation.TransGen r.EliminatedBy id id) ∧
    WellFounded (fun coverer id => r.EliminatedBy id coverer) ∧
    ∀ id, r.Eliminates id → ∃ last, Relation.TransGen r.EliminatedBy id last ∧
      ((∃ u ∈ setup.classifier.user, u.id = last) ∨
        (∃ c ∈ setup.classifier.sanitizer, c.id = last) ∧ ¬ r.Eliminates last) := by
  obtain ⟨checks, f, hb, hlists, _⟩ := of_runFrom_eq_ok h
  have hgrounded := Analysis.grounded_ledger setup.settings hb f
  have hby : ∀ id coverer, r.EliminatedBy id coverer ↔
      (Analysis.ledger setup.settings p checks f).1.Favours id coverer :=
    hlists.eliminatedBy_iff
  have hwf : WellFounded fun coverer id => r.EliminatedBy id coverer := by
    simpa only [hby] using hgrounded.chains
  refine ⟨fun id b c hb hc => ?_, fun id hcycle => ?_, hwf, fun id => ?_⟩
  · obtain ⟨reason, hfind, rfl⟩ := (hby id b).mp hb
    obtain ⟨reason', hfind', rfl⟩ := (hby id c).mp hc
    rw [Option.some.inj (hfind.symm.trans hfind')]
  · exact hwf.transGen.irrefl.irrefl id (Relation.transGen_swap.mp hcycle)
  · -- along the coverers: each is a user check, or left, or eliminated in turn
    induction id using hwf.induction with
    | _ id ih =>
      intro helim
      obtain ⟨reason, hfind⟩ := (hlists.eliminates_iff id).mp helim
      have hstep : r.EliminatedBy id reason.coverer := (hby _ _).mpr ⟨reason, hfind, rfl⟩
      obtain ⟨c, hc, hid⟩ := hgrounded.covered id reason hfind
      rw [hb.user_eq, hb.sanitizer_eq] at hc
      rcases List.mem_append.mp hc with hc | hc
      · exact ⟨reason.coverer, .single hstep, .inl ⟨c, hc, hid⟩⟩
      · by_cases hnext : r.Eliminates reason.coverer
        · obtain ⟨last, hchain, hlast⟩ := ih reason.coverer hstep hnext
          exact ⟨last, .head hstep hchain, hlast⟩
        · exact ⟨reason.coverer, .single hstep, .inr ⟨⟨c, hc, hid⟩, hnext⟩⟩

/-- On the ladder the first check leads to the second and the second to the last, which stays. -/
theorem ladder_coverers_end :
    (ladderSetup .l2).Gives (ladder false) (.given {}) fun _ r =>
      r.EliminatedBy ⟨1⟩ ⟨2⟩ ∧ r.EliminatedBy ⟨2⟩ ⟨3⟩ ∧
        ∃ last, Relation.TransGen r.EliminatedBy ⟨1⟩ last ∧
          ((∃ u ∈ (ladderSetup .l2).classifier.user, u.id = last) ∨
            (∃ c ∈ (ladderSetup .l2).classifier.sanitizer, c.id = last) ∧
              ¬ r.Eliminates last) := by
  have hrun : (ladderSetup .l2).Gives (ladder false) (.given {}) fun _ r =>
      r.Eliminates ⟨1⟩ ∧ r.EliminatedBy ⟨1⟩ ⟨2⟩ ∧ r.EliminatedBy ⟨2⟩ ⟨3⟩ := by
    decide +kernel
  obtain ⟨q, r, hrun, helim, hfirst, hsecond⟩ := hrun
  exact ⟨q, r, hrun, hfirst, hsecond, (coverers_end hrun).2.2.2 ⟨1⟩ helim⟩

/-- With nothing but dominance, at the careful levels and in a connected program, every
eliminated check has the pattern of a check that is left and that dominates or post-dominates it:
by their own blocks if a user wrote it, else by their effective blocks. -/
theorem static_survivor {checks : Inventory}
    (haccepted : Inventory.take p setup.classifier = .ok checks)
    (hstatic : setup.settings.isStaticOnly = true)
    (hlevel : setup.settings.level.isShallow = true) (hconnected : p.Connected)
    (source : FindingsSource) : setup.Gives p source fun _ r =>
      ∀ a ∈ setup.classifier.sanitizer, r.Eliminates a.id →
        ∃ c, p.SamePattern setup.settings.limits.maxMatchDepth.toNat a c ∧
          (c ∈ setup.classifier.user ∧ p.OnEveryRun (p.ownBlock? c) (p.ownBlock? a) ∨
            c ∈ setup.classifier.sanitizer ∧ ¬ r.Eliminates c.id ∧
              setup.classifier.Accompanies p c a) := by
  have hb := (Inventory.take_eq_ok_iff p setup.classifier checks).mp haccepted
  refine gives_of_belongs hb source fun f q r hlists a ha helim => ?_
  rw [← hb.sanitizer_eq] at ha
  obtain ⟨reason, hfind⟩ := (hlists.eliminates_iff a.id).mp helim
  rcases Analysis.survivor_of_connected hstatic hlevel hconnected hb f ha hfind with
    ⟨c, hc, hsame, hrun⟩ | ⟨c, hc, hleft, hsame, hrun⟩
  · exact ⟨c, hsame, .inl ⟨hb.user_eq ▸ hc, hrun⟩⟩
  · exact ⟨c, hsame, .inr ⟨hb.sanitizer_eq ▸ hc, hlists.not_eliminates hleft, hrun⟩⟩

private theorem connected_ladder : (ladder true).Connected := by
  have hmain : ∀ g ∈ FlowGraph.of? (ladder true) ⟨0⟩, ∀ b ∈ g.blocks, g.OnSomeRun b := by
    decide +kernel
  intro id g hg
  by_cases hid : id = ⟨0⟩
  · exact hmain g (hid ▸ hg)
  · have hsize : (ladder true).procedures.size = 1 := by decide +kernel
    have hindex : id.index.toNat ≠ 0 := fun h => hid (by
      cases id
      exact congrArg ProcedureId.mk (UInt32.toNat_inj.mp h))
    have hnone : (ladder true).procedure? id = none :=
      Array.getElem?_eq_none (by omega)
    simp [FlowGraph.of?, hnone] at hg

/-- On the ladder that goes on, the last check stands for the two that are eliminated. -/
theorem ladder_static_survivor :
    (ladderSetup .l1).Gives (ladder true) (.given {}) fun _ r =>
      (r.EliminatedBy ⟨1⟩ ⟨2⟩ ∧ r.EliminatedBy ⟨2⟩ ⟨3⟩) ∧
      ∀ a ∈ (ladderSetup .l1).classifier.sanitizer, r.Eliminates a.id →
        ∃ c, (ladder true).SamePattern 32 a c ∧
          (c ∈ (ladderSetup .l1).classifier.user ∧
              (ladder true).OnEveryRun ((ladder true).ownBlock? c) ((ladder true).ownBlock? a) ∨
            c ∈ (ladderSetup .l1).classifier.sanitizer ∧ ¬ r.Eliminates c.id ∧
              (ladderSetup .l1).classifier.Accompanies (ladder true) c a) :=
  Gives.and (by decide +kernel) (static_survivor rfl rfl rfl connected_ladder (.given {}))

/-- With nothing but dominance, whatever the level and wherever control flows, an eliminated
check is dominated or post-dominated by a user check, by their own blocks, or by a sanitizer
check that is left, by their effective blocks. In the second case a third check may stand between
the two, but only if no run from the entry to an exit passes the block of the eliminated check. -/
theorem static_survivor_upToGap {checks : Inventory}
    (haccepted : Inventory.take p setup.classifier = .ok checks)
    (hstatic : setup.settings.isStaticOnly = true) (source : FindingsSource) :
    setup.Gives p source fun _ r =>
      ∀ a ∈ setup.classifier.sanitizer, r.Eliminates a.id →
        (∃ c ∈ setup.classifier.user, p.OnEveryRun (p.ownBlock? c) (p.ownBlock? a)) ∨
          ∃ c ∈ setup.classifier.sanitizer, ¬ r.Eliminates c.id ∧
            setup.classifier.AccompaniesUpToGap p c a := by
  have hb := (Inventory.take_eq_ok_iff p setup.classifier checks).mp haccepted
  refine gives_of_belongs hb source fun f q r hlists a ha helim => ?_
  rw [← hb.sanitizer_eq] at ha
  obtain ⟨reason, hfind⟩ := (hlists.eliminates_iff a.id).mp helim
  rcases Analysis.survivor_upToGap hstatic hb f ha hfind with ⟨c, hc, hrun⟩ | ⟨c, hc, hleft, hrun⟩
  · exact .inl ⟨c, hb.user_eq ▸ hc, hrun⟩
  · exact .inr ⟨c, hb.sanitizer_eq ▸ hc, hlists.not_eliminates hleft, hrun⟩

/-- On the ladder that does not go on, the last check stands for the first by way of the second. -/
theorem ladder_static_survivor_upToGap :
    (ladderSetup .l2).Gives (ladder false) (.given {}) fun _ r =>
      (r.EliminatedBy ⟨1⟩ ⟨2⟩ ∧ r.EliminatedBy ⟨2⟩ ⟨3⟩) ∧
      ∀ a ∈ (ladderSetup .l2).classifier.sanitizer, r.Eliminates a.id →
        (∃ c ∈ (ladderSetup .l2).classifier.user,
            (ladder false).OnEveryRun ((ladder false).ownBlock? c) ((ladder false).ownBlock? a)) ∨
          ∃ c ∈ (ladderSetup .l2).classifier.sanitizer, ¬ r.Eliminates c.id ∧
            (ladderSetup .l2).classifier.AccompaniesUpToGap (ladder false) c a :=
  Gives.and (by decide +kernel) (static_survivor_upToGap rfl rfl (.given {}))

/-- The detour is real: on the ladder that does not go on, the first check is eliminated, and no
check that is left dominates or post-dominates it. -/
theorem ladder_no_direct_survivor :
    (ladderSetup .l2).settings.isStaticOnly = true ∧
    (∃ checks, Inventory.take (ladder false) (ladderSetup .l2).classifier = .ok checks) ∧
    (ladderSetup .l2).Gives (ladder false) (.given {}) fun _ r =>
      ∃ a ∈ (ladderSetup .l2).classifier.sanitizer, r.Eliminates a.id ∧
        ¬ ((∃ c ∈ (ladderSetup .l2).classifier.user,
            (ladder false).OnEveryRun ((ladder false).ownBlock? c) ((ladder false).ownBlock? a)) ∨
          ∃ c ∈ (ladderSetup .l2).classifier.sanitizer, ¬ r.Eliminates c.id ∧
            (ladderSetup .l2).classifier.Accompanies (ladder false) c a) :=
  ⟨rfl, ⟨_, rfl⟩, by decide +kernel⟩

end Setup

end GuardElision
