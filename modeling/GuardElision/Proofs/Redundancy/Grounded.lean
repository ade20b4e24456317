import GuardElision.Proofs.Redundancy.Entries
import GuardElision.Proofs.Run.Inventory

/-!
# Chains of coverers end

The coverer of a check may be eliminated itself, so the ledger holds chains. After the first
two phases every step of a chain leads to a user check or to an earlier sanitizer check. In
the third phase a chain is only ever extended at its front: the coverer of a new entry is not
in the ledger, so whatever chain leads through the new entry ends right behind it.
-/

namespace GuardElision

namespace Ledger

/-- A check is in the ledger in favour of another one. -/
def Favours (l : Ledger) (id coverer : CheckId) : Prop :=
  ∃ reason, l.find? id = some reason ∧ reason.coverer = coverer

/-- The entries are sanitizer checks, they are covered by checks of the inventory, and every
chain of coverers ends. -/
structure Grounded (checks : Inventory) (l : Ledger) : Prop where
  entered : ∀ id reason, l.find? id = some reason → ∃ c ∈ checks.sanitizer, c.id = id
  covered : ∀ id reason, l.find? id = some reason →
    ∃ c ∈ checks.user ++ checks.sanitizer, c.id = reason.coverer
  chains : WellFounded fun coverer id => l.Favours id coverer

variable {checks : Inventory} {l : Ledger}

theorem not_favours_of_find?_eq_none {id : CheckId} (h : l.find? id = none)
    (coverer : CheckId) : ¬ l.Favours id coverer := by
  rintro ⟨reason, hreason, _⟩
  simp [h] at hreason

/-- A check that is not in the ledger ends every chain. -/
theorem acc_of_find?_eq_none {id : CheckId} (h : l.find? id = none) :
    Acc (fun coverer id => l.Favours id coverer) id :=
  ⟨id, fun coverer hby => absurd hby (not_favours_of_find?_eq_none h coverer)⟩

theorem favours_mark_iff {id : CheckId} (hnew : l.find? id = none) (reason : Reason)
    (other coverer : CheckId) : (mark l id reason).Favours other coverer ↔
      (other = id ∧ reason.coverer = coverer) ∨ (other ≠ id ∧ l.Favours other coverer) := by
  simp only [Favours, find?_mark hnew]
  by_cases h : other = id <;> simp [h]

/-- An entry in favour of a check outside the ledger keeps all chains finite. -/
theorem Grounded.enter (h : l.Grounded checks) {id : CheckId} {reason : Reason}
    (hnew : l.find? id = none) (hid : ∃ c ∈ checks.sanitizer, c.id = id)
    (hcoverer : ∃ c ∈ checks.user ++ checks.sanitizer, c.id = reason.coverer)
    (hlive : l.find? reason.coverer = none) (hne : reason.coverer ≠ id) :
    (mark l id reason).Grounded checks := by
  refine ⟨fun other why hfind => ?_, fun other why hfind => ?_, ⟨fun other => ?_⟩⟩
  · rw [find?_mark hnew] at hfind
    split at hfind
    · next heq => exact heq ▸ hid
    · exact h.entered other why hfind
  · rw [find?_mark hnew] at hfind
    split at hfind
    · exact Option.some.inj hfind ▸ hcoverer
    · exact h.covered other why hfind
  · have hend : (mark l id reason).find? reason.coverer = none := by
      rw [find?_mark hnew, if_neg hne, hlive]
    -- along the old chains; at the new entry the chain ends with its coverer
    induction h.chains.apply other with
    | intro other _ ih =>
      refine ⟨other, fun coverer hby => ?_⟩
      rcases (favours_mark_iff hnew reason other coverer).mp hby with ⟨_, rfl⟩ | ⟨_, hby⟩
      · exact acc_of_find?_eq_none hend
      · exact ih coverer hby

/-- Growth by entries in favour of checks outside the ledger keeps all chains finite. -/
theorem Growth.grounded {allowed : Ledger → CheckId → Reason → Prop} {a b : Ledger}
    (hgrow : Growth allowed a b) (ha : a.Grounded checks)
    (hstep : ∀ l : Ledger, l.Grounded checks → ∀ id reason, allowed l id reason →
      (∃ c ∈ checks.sanitizer, c.id = id) ∧
      (∃ c ∈ checks.user ++ checks.sanitizer, c.id = reason.coverer) ∧
      l.find? reason.coverer = none ∧ reason.coverer ≠ id) : b.Grounded checks := by
  induction hgrow with
  | still => exact ha
  | @enter l id reason _ hnew hallowed ih =>
    obtain ⟨hid, hcoverer, hlive, hne⟩ := hstep l ih id reason hallowed
    exact ih.enter hnew hid hcoverer hlive hne

/-- Where all entries are sanitizer checks, no user check is in the ledger. -/
theorem find?_user_eq_none {p : Program} {k : Classifier} (hb : checks.Belongs p k)
    (hl : ∀ id reason, l.find? id = some reason → ∃ c ∈ checks.sanitizer, c.id = id)
    {u : Check} (hu : u ∈ checks.user) : l.find? u.id = none := by
  cases hfind : l.find? u.id with
  | none => rfl
  | some reason =>
    obtain ⟨c, hc, hid⟩ := hl u.id reason hfind
    exact absurd hid.symm (hb.user_id_ne hc hu)

end Ledger

namespace Phases

open Ledger

variable {p : Program} {k : Classifier} {checks : Inventory} {l : Ledger}

/-- Where every step of a chain leads to a user check or to an earlier sanitizer check, all
chains end. -/
theorem grounded_of_earlier (hb : checks.Belongs p k)
    (hl : ∀ id reason, l.find? id = some reason →
      UserEntry checks l id reason ∨ CoverageEntry checks l id reason) : l.Grounded checks := by
  have hentered : ∀ id reason, l.find? id = some reason → ∃ c ∈ checks.sanitizer, c.id = id := by
    intro id reason hfind
    rcases hl id reason hfind with ⟨_, hmem, _⟩ | ⟨_, _, _, c, _, _, hget, hid, _⟩
    · exact hmem
    · exact ⟨c, List.mem_of_getElem? hget, hid⟩
  have hposition : ∀ (i : Nat) (c : Check), checks.sanitizer[i]? = some c →
      Acc (fun coverer id => l.Favours id coverer) c.id := by
    intro i
    induction i using Nat.strongRecOn with
    | ind i ih =>
      refine fun c hc => ⟨c.id, fun coverer hby => ?_⟩
      obtain ⟨reason, hfind, rfl⟩ := hby
      rcases hl c.id reason hfind with
        ⟨_, _, u, hu, hcoverer⟩ | ⟨_, i', j, c', e, hlt, hc', hid, he, hcoverer⟩
      · exact hcoverer ▸ acc_of_find?_eq_none (find?_user_eq_none hb hentered hu)
      · obtain rfl := hb.position_eq hc' hc hid
        exact hcoverer ▸ ih j hlt e he
  refine ⟨hentered, fun id reason hfind => ?_, ⟨fun id => ?_⟩⟩
  · rcases hl id reason hfind with ⟨_, _, u, hu, hid⟩ | ⟨_, _, _, _, e, _, _, _, he, hid⟩
    · exact ⟨u, List.mem_append_left _ hu, hid⟩
    · exact ⟨e, List.mem_append_right _ (List.mem_of_getElem? he), hid⟩
  · cases hfind : l.find? id with
    | none => exact acc_of_find?_eq_none hfind
    | some reason =>
      obtain ⟨c, hc, rfl⟩ := hentered id reason hfind
      obtain ⟨i, hi⟩ := List.mem_iff_getElem?.mp hc
      exact hposition i c hi

end Phases

/-- In the ledger at the end of a run all chains of coverers end. -/
theorem Analysis.grounded_ledger (s : Settings) {p : Program} {k : Classifier}
    {checks : Inventory} (hb : checks.Belongs p k) (f : Findings) :
    (ledger s p checks f).1.Grounded checks := by
  obtain ⟨l₁, l₂, l₃, hgrow₁, hgrow₂, hgrow₃, hgrow₄, _⟩ := ledger_growth s p checks f
  have hcounts : l₂.Grounded checks := by
    refine Phases.grounded_of_earlier hb fun id reason hfind => ?_
    rcases hgrow₂.cases_find? hfind with hfind | ⟨_, hentry⟩
    · rcases hgrow₁.cases_find? hfind with hfind | ⟨_, hentry⟩
      · cases hfind
      · exact .inl hentry
    · exact .inr hentry
  have husers : l₃.Grounded checks := by
    refine hgrow₃.grounded hcounts ?_
    rintro l hl id reason ⟨c, u, rfl, hcovered⟩
    obtain rfl := hcovered.reason_eq
    exact ⟨⟨c, hcovered.candidate_mem, rfl⟩,
      ⟨u, List.mem_append_left _ hcovered.coverer_mem, rfl⟩,
      Ledger.find?_user_eq_none hb hl.entered hcovered.coverer_mem,
      hb.user_id_ne hcovered.candidate_mem hcovered.coverer_mem⟩
  refine hgrow₄.grounded husers ?_
  rintro l _ id reason ⟨c, e, rfl, hcovered⟩
  obtain ⟨i, j, _, _, hc, he, _⟩ := hcovered.placed
  have hget := ((Phases.mem_placed_iff p checks c i _).mp hc).1
  have hget' := ((Phases.mem_placed_iff p checks e j _).mp he).1
  obtain rfl := hcovered.reason_eq
  exact ⟨⟨c, List.mem_of_getElem? hget, rfl⟩,
    ⟨e, List.mem_append_right _ (List.mem_of_getElem? hget'), rfl⟩,
    hcovered.coverer_live, hcovered.ids_ne⟩

end GuardElision
