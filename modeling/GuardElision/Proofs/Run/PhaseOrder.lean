import GuardElision.Proofs.Run.Accounting

/-!
# Later phases do not disturb earlier ones

The phases share one ledger and one session. Still, what a phase enters depends on the phases before
it and not on those behind it: two runs that differ only in phases behind all that one of them
enables go the same way up to there, and from there on the ledger only grows, by entries that
carry the phase they are made in. So the shorter run can be read off the longer one: its
eliminations are those of the phases that it enables.
-/

namespace GuardElision

namespace PhaseToggles

/-- Whether a phase is enabled. -/
def enables (t : PhaseToggles) : Phase → Bool
  | .user => t.user
  | .coverage => t.coverage
  | .dominance => t.dominance

/-- All phases that `fewer` enables are enabled, and besides them only phases that run later than
every one of them. -/
structure Extends (more fewer : PhaseToggles) : Prop where
  keeps : ∀ phase, fewer.enables phase = true → more.enables phase = true
  later : ∀ phase, more.enables phase = true → fewer.enables phase = false →
    ∀ earlier, fewer.enables earlier = true → earlier.index < phase.index

/-- Up to the last phase of the smaller choice the two choices agree. -/
theorem Extends.enables_eq {more fewer : PhaseToggles} (h : more.Extends fewer)
    {phase last : Phase} (hlast : fewer.enables last = true) (hle : phase.index ≤ last.index) :
    more.enables phase = fewer.enables phase := by
  cases hfewer : fewer.enables phase with
  | true => exact h.keeps phase hfewer
  | false =>
    refine Bool.eq_false_iff.mpr fun hmore => ?_
    have hlt := h.later phase hmore hfewer last hlast
    omega

end PhaseToggles

/-- Of a ledger that grew by entries of one kind from entries of another kind, the old entries are
those of the other kind. -/
theorem Ledger.Growth.filter_entries {keep : Reason → Bool} {l l' : Ledger}
    (hgrow : Ledger.Growth (fun _ _ reason => keep reason = false) l l')
    (hold : ∀ id reason, l.find? id = some reason → keep reason = true) :
    l'.entries.filter (fun e => keep e.2) = l.entries := by
  have hascending : Ascending (l'.entries.filter fun e => keep e.2) :=
    l'.ascending.sublist List.filter_sublist
  refine hascending.eq_of_mem_iff l.ascending fun ⟨id, reason⟩ => ?_
  rw [List.mem_filter, SortedMap.mem_entries_iff, SortedMap.mem_entries_iff]
  constructor
  · rintro ⟨hfind, hkeep⟩
    rcases hgrow.cases_find? hfind with h | ⟨_, hnew⟩
    · exact h
    · simp only at hkeep
      rw [hnew] at hkeep
      cases hkeep
  · intro h
    exact ⟨hgrow.find?_eq_some h, hold id reason h⟩

namespace Analysis

open Phases

variable (s : Settings) (p : Program) (checks : Inventory) (f : Findings)

/-- The ledger after the first phase. -/
def afterUser : Ledger := (userPass s p checks f.evidence .empty {}).1

/-- The ledger after the first two phases. -/
def afterCoverage : Ledger :=
  ((userPass s p checks f.evidence .empty >>= coverageLedger s p checks f) {}).1

/-- An entry is made in a phase that is enabled. -/
def MadeIn (phase : Phase) (_ : Ledger) (_ : CheckId) (reason : Reason) : Prop :=
  s.phases.enables phase = true ∧ reason.phase = phase

theorem growth_afterUser :
    Ledger.Growth (MadeIn s .user) .empty (afterUser s p checks f) := by
  obtain ⟨hgrow, _⟩ := (settles_userPass s p checks f).grows .empty {} (Session.faithful_fresh p)
  refine hgrow.mono ?_
  rintro l _ reason ⟨candidate, _, _, _, hon, _, _, hoffer⟩
  exact ⟨hon, (hoffer.entry l).1⟩

theorem growth_afterCoverage : Ledger.Growth (MadeIn s .coverage) (afterUser s p checks f)
    (afterCoverage s p checks f) := by
  obtain ⟨_, hfaithful⟩ := (settles_userPass s p checks f).grows .empty {} (Session.faithful_fresh p)
  obtain ⟨hgrow, _⟩ := (settles_coverageLedger s p checks f).grows _ _ hfaithful
  refine hgrow.mono ?_
  rintro l _ reason ⟨candidate, _, _, _, _, hon, _, _, _, hoffer⟩
  exact ⟨hon, (hoffer.entry l).1⟩

theorem growth_ledger : Ledger.Growth (MadeIn s .dominance) (afterCoverage s p checks f)
    (ledger s p checks f).1 := by
  obtain ⟨_, hfaithful₁⟩ :=
    (settles_userPass s p checks f).grows .empty {} (Session.faithful_fresh p)
  obtain ⟨_, hfaithful₂⟩ := (settles_coverageLedger s p checks f).grows _ _ hfaithful₁
  obtain ⟨hgrow₃, hfaithful₃⟩ := (settles_byUsersPass s p checks f).grows _ _ hfaithful₂
  obtain ⟨hgrow₄, _⟩ := grows_bySanitizers s p checks f _ _ hfaithful₃
  rw [ledger_eq]
  refine (hgrow₃.mono ?_).trans (hgrow₄.mono ?_)
  · rintro l _ reason ⟨_, _, _, hon, hcovered⟩
    exact ⟨hon, by rw [hcovered.reason_eq]⟩
  · rintro l _ reason ⟨hon, _, _, _, hcovered⟩
    exact ⟨hon, by rw [hcovered.reason_eq]⟩

variable {s p checks f}

/-- Every entry of a run is made in a phase that is enabled. -/
theorem enables_of_find?_ledger {id : CheckId} {reason : Reason}
    (h : (ledger s p checks f).1.find? id = some reason) :
    s.phases.enables reason.phase = true := by
  rcases (growth_ledger s p checks f).cases_find? h with h | ⟨_, hon, hphase⟩
  · rcases (growth_afterCoverage s p checks f).cases_find? h with h | ⟨_, hon, hphase⟩
    · rcases (growth_afterUser s p checks f).cases_find? h with h | ⟨_, hon, hphase⟩
      · cases h
      · rw [hphase, hon]
    · rw [hphase, hon]
  · rw [hphase, hon]

/-- A phase that is switched off leaves the ledger as it is. -/
private theorem eq_of_madeIn {phase : Phase} {a b : Ledger}
    (h : Ledger.Growth (MadeIn s phase) a b) (hoff : s.phases.enables phase = false) : b = a := by
  refine h.eq_of_forall_not fun _ _ _ hmade => ?_
  rw [hmade.1] at hoff
  cases hoff

/-- The first phase goes by its own toggle. -/
private theorem userPass_congr {more : PhaseToggles} (h : more.user = s.phases.user) :
    userPass { s with phases := more } p checks f.evidence = userPass s p checks f.evidence := by
  unfold userPass
  simp only [h]
  rfl

/-- The second phase goes by its own toggle. -/
private theorem coverageLedger_congr {more : PhaseToggles} (h : more.coverage = s.phases.coverage) :
    coverageLedger { s with phases := more } p checks f = coverageLedger s p checks f := by
  unfold coverageLedger coveragePass
  simp only [h]
  rfl

/-- When later phases are enabled as well, the ledger is what it was before, grown by entries of
these phases. -/
theorem growth_of_extends {more : PhaseToggles} (h : more.Extends s.phases) :
    Ledger.Growth (fun _ _ reason => s.phases.enables reason.phase = false)
      (ledger s p checks f).1 (ledger { s with phases := more } p checks f).1 := by
  have hoff : ∀ {phase}, s.phases.enables phase = false → ∀ l id reason,
      MadeIn { s with phases := more } phase l id reason →
        s.phases.enables reason.phase = false := by
    intro phase hphase l id reason hmade
    rw [hmade.2, hphase]
  have hagree : ∀ {last}, s.phases.enables last = true → ∀ phase, phase.index ≤ last.index →
      more.enables phase = s.phases.enables phase :=
    fun hlast phase hle => h.enables_eq hlast hle
  -- the last phase that is enabled decides how far the two runs are the same
  by_cases hdominance : s.phases.enables .dominance = true
  · have hsame : more = s.phases := by
      have huser : more.user = s.phases.user := hagree hdominance .user (by decide)
      have hcoverage : more.coverage = s.phases.coverage :=
        hagree hdominance .coverage (by decide)
      have hlast : more.dominance = s.phases.dominance :=
        hagree hdominance .dominance (by decide)
      cases more
      simp only at huser hcoverage hlast
      rw [huser, hcoverage, hlast]
    rw [hsame]
    exact .still
  rw [Bool.not_eq_true] at hdominance
  rw [eq_of_madeIn (growth_ledger s p checks f) hdominance]
  refine Ledger.Growth.trans ?_ ((growth_ledger _ p checks f).mono (hoff hdominance))
  by_cases hcoverage : s.phases.enables .coverage = true
  · have hsame : afterCoverage { s with phases := more } p checks f =
        afterCoverage s p checks f := by
      rw [afterCoverage, userPass_congr (hagree hcoverage .user (by decide)),
        coverageLedger_congr (hagree hcoverage .coverage (by decide))]
      rfl
    rw [hsame]
    exact .still
  rw [Bool.not_eq_true] at hcoverage
  rw [eq_of_madeIn (growth_afterCoverage s p checks f) hcoverage]
  refine Ledger.Growth.trans ?_ ((growth_afterCoverage _ p checks f).mono (hoff hcoverage))
  by_cases huser : s.phases.enables .user = true
  · have hsame : afterUser { s with phases := more } p checks f = afterUser s p checks f := by
      rw [afterUser, userPass_congr (hagree huser .user (by decide))]
      rfl
    rw [hsame]
    exact .still
  rw [Bool.not_eq_true] at huser
  rw [eq_of_madeIn (growth_afterUser s p checks f) huser]
  exact (growth_afterUser _ p checks f).mono (hoff huser)

/-- The entries of a run are those of its phases in a run that enables later phases as well. -/
theorem filter_entries_of_extends (s : Settings) (p : Program) (checks : Inventory) (f : Findings)
    {more : PhaseToggles} (h : more.Extends s.phases) :
    (ledger { s with phases := more } p checks f).1.entries.filter
        (fun e => s.phases.enables e.2.phase) = (ledger s p checks f).1.entries :=
  (growth_of_extends h).filter_entries fun _ _ => enables_of_find?_ledger

end Analysis

namespace Setup

/-- The setup with other phases enabled. -/
def withPhases (setup : Setup) (phases : PhaseToggles) : Setup :=
  { setup with settings.phases := phases }

/-- Whatever the program, the classifier and the findings, a run that enables later phases as well
fails where the run without them fails, and in the same way; otherwise its eliminations in the
phases of the run without them are the eliminations of that run, in the same order, each for the
same check, in favour of the same check, in the same phase and with the same count. -/
theorem eliminated_of_extends {setup : Setup} {more : PhaseToggles}
    (h : more.Extends setup.settings.phases) (p : Program) (source : FindingsSource) :
    (∃ cause, setup.runFrom p source = .error cause ∧
      (setup.withPhases more).runFrom p source = .error cause) ∨
    ∃ q r q' r', setup.runFrom p source = .ok (q, r) ∧
      (setup.withPhases more).runFrom p source = .ok (q', r') ∧
      (r'.eliminated.filter fun e => setup.settings.phases.enables e.reason.phase).map
          (fun e => (e.check, e.reason)) =
        r.eliminated.map fun e => (e.check, e.reason) := by
  cases htake : Inventory.take p setup.classifier with
  | error cause =>
    refine .inl ⟨cause, ?_, ?_⟩
    · rw [runFrom_eq, htake]
      rfl
    · have htake' : Inventory.take p (setup.withPhases more).classifier = .error cause := htake
      rw [runFrom_eq, htake']
      rfl
  | ok checks =>
    have hb := (Inventory.take_eq_ok_iff p setup.classifier checks).mp htake
    have hb' : checks.Belongs p (setup.withPhases more).classifier := hb
    obtain ⟨r, hlists, hrun⟩ :=
      Analysis.run_eq_ok setup hb (setup.findings p checks source)
    obtain ⟨r', hlists', hrun'⟩ :=
      Analysis.run_eq_ok (setup.withPhases more) hb' (setup.findings p checks source)
    have hfirst := (runFrom_of_belongs hb source).trans hrun
    have hfindings : (setup.withPhases more).findings p checks source =
        setup.findings p checks source := by cases source <;> rfl
    have hsecond := runFrom_of_belongs hb' source
    rw [hfindings, hrun'] at hsecond
    refine .inr ⟨_, r, _, r', hfirst, hsecond, ?_⟩
    have hfilter :=
      Analysis.filter_entries_of_extends setup.settings p checks (setup.findings p checks source) h
    have hlonger : r'.eliminated.map (fun e => (e.check, e.reason)) = (Analysis.ledger
        { setup.settings with phases := more } p checks (setup.findings p checks source)).1.entries :=
      hlists'
    rw [hlists, ← hfilter, ← hlonger, List.filter_map]
    rfl

/-- In the run on the stages the third phase eliminates one more check than the first two, and what
these eliminate stays what it is without the third. -/
theorem stages_eliminated_of_extends :
    PhaseToggles.Extends {} { dominance := false } ∧
    ∃ q r q' r', (stagesSetup.withPhases { dominance := false }).runFrom stages
        (.given stagesFindings) = .ok (q, r) ∧
      stagesSetup.runFrom stages (.given stagesFindings) = .ok (q', r') ∧
      r.eliminated.map (·.check) = [⟨1⟩, ⟨3⟩] ∧ r'.eliminated.map (·.check) = [⟨1⟩, ⟨3⟩, ⟨4⟩] ∧
      (r'.eliminated.filter fun e => PhaseToggles.enables { dominance := false } e.reason.phase).map
          (fun e => (e.check, e.reason)) =
        r.eliminated.map fun e => (e.check, e.reason) := by
  have hextends : PhaseToggles.Extends {} { dominance := false } := by
    constructor
    · intro phase _
      cases phase <;> rfl
    · intro phase _ hoff earlier hon
      cases phase with
      | user => cases hoff
      | coverage => cases hoff
      | dominance =>
        cases earlier with
        | user => decide
        | coverage => decide
        | dominance => cases hon
  have hshort : (stagesSetup.withPhases { dominance := false }).Gives stages
      (.given stagesFindings) fun _ r => r.eliminated.map (·.check) = [⟨1⟩, ⟨3⟩] := by
    decide +kernel
  have hlong : stagesSetup.Gives stages (.given stagesFindings) fun _ r =>
      r.eliminated.map (·.check) = [⟨1⟩, ⟨3⟩, ⟨4⟩] := by decide +kernel
  obtain ⟨q, r, hrun, hr⟩ := hshort
  obtain ⟨q', r', hrun', hr'⟩ := hlong
  refine ⟨hextends, q, r, q', r', hrun, hrun', hr, hr', ?_⟩
  rcases @eliminated_of_extends (stagesSetup.withPhases { dominance := false }) {} hextends
    stages (.given stagesFindings) with ⟨cause, herror, _⟩ | ⟨_, _, _, _, hok, hok', heq⟩
  · cases hrun.symm.trans herror
  · obtain ⟨rfl, rfl⟩ := Prod.mk.inj (Except.ok.inj (hrun.symm.trans hok))
    obtain ⟨rfl, rfl⟩ := Prod.mk.inj (Except.ok.inj (hrun'.symm.trans hok'))
    exact heq

end Setup

end GuardElision
