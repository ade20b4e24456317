import GuardElision.Proofs.Ordered.Map
import GuardElision.Proofs.Redundancy.Grounded
import GuardElision.Proofs.Run.Folding
import GuardElision.Run.Batch

/-!
# What a run gives

Taking stock is the only thing in a run that can fail: once the checks are known to belong to
the program, the run gives a folded program and a report. The report lists the ledger, entry
by entry, and the folded program is the old one with the listed checks folded in that order.
What is said about reports can therefore be proved about ledgers.
-/

namespace GuardElision

/-- Where numbers tell checks apart, the check with a number is found. -/
private theorem find?_id_eq_some_iff {checks : List Check}
    (h : ∀ c ∈ checks, ∀ d ∈ checks, c.id = d.id → c = d) (id : CheckId) (c : Check) :
    checks.find? (·.id == id) = some c ↔ c ∈ checks ∧ c.id = id := by
  constructor
  · intro hfind
    exact ⟨List.mem_of_find?_eq_some hfind, by simpa using List.find?_some hfind⟩
  · rintro ⟨hmem, rfl⟩
    have hsome : (checks.find? (·.id == c.id)).isSome = true :=
      List.find?_isSome.mpr ⟨c, hmem, beq_self_eq_true c.id⟩
    obtain ⟨d, hd⟩ := Option.isSome_iff_exists.mp hsome
    have hid : d.id = c.id := by simpa using List.find?_some hd
    rw [hd, h d (List.mem_of_find?_eq_some hd) c hmem hid]

/-- The sanitizer check with a number. -/
def Classifier.sanitizer? (k : Classifier) (id : CheckId) : Option Check :=
  k.sanitizer.find? (·.id == id)

namespace Inventory.Belongs

variable {p : Program} {k : Classifier} {checks : Inventory}

theorem sanitizer?_eq_some_iff (h : checks.Belongs p k) (id : CheckId) (c : Check) :
    k.sanitizer? id = some c ↔ c ∈ checks.sanitizer ∧ c.id = id := by
  rw [Classifier.sanitizer?, ← h.sanitizer_eq]
  exact find?_id_eq_some_iff (fun _ hc _ hd => h.eq_of_id_eq hc hd) id c

/-- It does not matter from which end a check is looked for. -/
theorem reverse_find?_eq (h : checks.Belongs p k) (id : CheckId) :
    checks.sanitizer.reverse.find? (·.id == id) = k.sanitizer? id := by
  apply Option.ext
  intro c
  have hdistinct : ∀ c ∈ checks.sanitizer.reverse, ∀ d ∈ checks.sanitizer.reverse,
      c.id = d.id → c = d :=
    fun _ hc _ hd => h.eq_of_id_eq (List.mem_reverse.mp hc) (List.mem_reverse.mp hd)
  rw [find?_id_eq_some_iff hdistinct, List.mem_reverse, h.sanitizer?_eq_some_iff]

/-- When all entries of a ledger are sanitizer checks, they are all planned, in order. -/
theorem map_plan (h : checks.Belongs p k) {l : Ledger}
    (hl : ∀ id reason, l.find? id = some reason → ∃ c ∈ checks.sanitizer, c.id = id) :
    (Analysis.plan checks l).map (fun e => (e.1.id, e.2)) = l.entries := by
  have hentry : ∀ e ∈ l.entries, ∃ c, k.sanitizer? e.1 = some c ∧ c.id = e.1 := by
    intro e he
    obtain ⟨c, hmem, hid⟩ := hl e.1 e.2 ((l.mem_entries_iff e.1 e.2).mp he)
    exact ⟨c, (h.sanitizer?_eq_some_iff e.1 c).mpr ⟨hmem, hid⟩, hid⟩
  simp only [Analysis.plan, h.reverse_find?_eq]
  generalize l.entries = entries at hentry
  induction entries with
  | nil => rfl
  | cons e rest ih =>
    obtain ⟨c, hfind, hid⟩ := hentry e List.mem_cons_self
    simp only [List.filterMap_cons, hfind, Option.map_some, List.map_cons, hid]
    rw [ih fun e he => hentry e (List.mem_cons_of_mem _ he)]

/-- The planned checks are the sanitizer checks with the numbers of the entries. -/
theorem map_plan_fst (h : checks.Belongs p k) (l : Ledger) :
    (Analysis.plan checks l).map (·.1) = l.entries.filterMap fun e => k.sanitizer? e.1 := by
  simp only [Analysis.plan, h.reverse_find?_eq, List.map_filterMap, Option.map_map]
  congr 1
  funext e
  cases k.sanitizer? e.1 <;> rfl

end Inventory.Belongs

namespace Report

/-- A report lists a ledger, entry by entry. -/
def Lists (r : Report) (l : Ledger) : Prop :=
  r.eliminated.map (fun e => (e.check, e.reason)) = l.entries

/-- A check is among the eliminated ones. -/
def Eliminates (r : Report) (id : CheckId) : Prop := ∃ e ∈ r.eliminated, e.check = id

/-- A check is eliminated in favour of another one. -/
def EliminatedBy (r : Report) (id coverer : CheckId) : Prop :=
  ∃ e ∈ r.eliminated, e.check = id ∧ e.reason.coverer = coverer

instance (r : Report) (id : CheckId) : Decidable (r.Eliminates id) :=
  inferInstanceAs (Decidable (∃ e ∈ r.eliminated, _))

instance (r : Report) (id coverer : CheckId) : Decidable (r.EliminatedBy id coverer) :=
  inferInstanceAs (Decidable (∃ e ∈ r.eliminated, _))

variable {r : Report} {l : Ledger}

theorem Lists.find?_eq_some_iff (h : r.Lists l) (id : CheckId) (reason : Reason) :
    l.find? id = some reason ↔ ∃ e ∈ r.eliminated, e.check = id ∧ e.reason = reason := by
  rw [← l.mem_entries_iff, ← h, List.mem_map]
  simp only [Prod.mk.injEq]

theorem Lists.eliminates_iff (h : r.Lists l) (id : CheckId) :
    r.Eliminates id ↔ ∃ reason, l.find? id = some reason := by
  simp only [h.find?_eq_some_iff, Eliminates]
  exact ⟨fun ⟨e, he, hid⟩ => ⟨e.reason, e, he, hid, rfl⟩, fun ⟨_, e, he, hid, _⟩ => ⟨e, he, hid⟩⟩

theorem Lists.not_eliminates (h : r.Lists l) {id : CheckId} (hleft : l.find? id = none) :
    ¬ r.Eliminates id := by
  rw [h.eliminates_iff]
  simp [hleft]

theorem Lists.eliminatedBy_iff (h : r.Lists l) (id coverer : CheckId) :
    r.EliminatedBy id coverer ↔ l.Favours id coverer := by
  simp only [Ledger.Favours, h.find?_eq_some_iff, EliminatedBy]
  constructor
  · rintro ⟨e, he, hid, hby⟩
    exact ⟨e.reason, ⟨e, he, hid, rfl⟩, hby⟩
  · rintro ⟨_, ⟨e, he, hid, rfl⟩, hby⟩
    exact ⟨e, he, hid, hby⟩

/-- The eliminated checks, in the order of the report. -/
def eliminatedChecks (r : Report) (k : Classifier) : List Check :=
  r.eliminated.filterMap fun e => k.sanitizer? e.check

theorem mem_eliminatedChecks_iff {p : Program} {k : Classifier} {checks : Inventory}
    (h : checks.Belongs p k) (c : Check) :
    c ∈ r.eliminatedChecks k ↔ c ∈ k.sanitizer ∧ r.Eliminates c.id := by
  simp only [eliminatedChecks, List.mem_filterMap, h.sanitizer?_eq_some_iff, h.sanitizer_eq]
  constructor
  · rintro ⟨e, he, hc, hid⟩
    exact ⟨hc, e, he, hid.symm⟩
  · rintro ⟨hc, e, he, hid⟩
    exact ⟨e, he, hc, hid.symm⟩

end Report

/-- Folding what a ledger of sanitizer checks plans succeeds; it lists the ledger and folds the
checks of the list. -/
theorem Inventory.Belongs.foldAll_plan {p : Program} {k : Classifier} {checks : Inventory}
    (h : checks.Belongs p k) {l : Ledger}
    (hl : ∀ id reason, l.find? id = some reason → ∃ c ∈ checks.sanitizer, c.id = id) :
    ∃ eliminated : List Elimination,
      eliminated.map (fun e => (e.check, e.reason)) = l.entries ∧
      Analysis.foldAll k p (Analysis.plan checks l) =
        .ok (p.foldEach k (eliminated.filterMap fun e => k.sanitizer? e.check), eliminated) := by
  have hbranches : ∀ e ∈ Analysis.plan checks l, ∃ n, p.branchOf e.1 = .ok n := by
    intro e he
    have hmem : e.1 ∈ (Analysis.plan checks l).map (·.1) := List.mem_map_of_mem he
    rw [h.map_plan_fst] at hmem
    obtain ⟨_, _, hfind⟩ := List.mem_filterMap.mp hmem
    have hsanitizer := ((h.sanitizer?_eq_some_iff _ _).mp hfind).1
    rw [h.sanitizer_eq] at hsanitizer
    exact h.branches e.1 (List.mem_append_left _ hsanitizer)
  obtain ⟨eliminated, hfold, hlist⟩ := Analysis.foldAll_eq_ok k hbranches
  have hentries := hlist.trans (h.map_plan hl)
  have hchecks : (Analysis.plan checks l).map (·.1) =
      eliminated.filterMap fun e => k.sanitizer? e.check := by
    rw [h.map_plan_fst, ← hentries, List.filterMap_map]
    rfl
  exact ⟨eliminated, hentries, by rw [hfold, hchecks]⟩

namespace Analysis

/-- A run folds its ledger and reports on it. -/
theorem run_eq_ok_of_ledger {setup : Setup} {p q : Program} {checks : Inventory} {f : Findings}
    {l : Ledger} {skipped : List Warning} {eliminated : List Elimination}
    (hledger : ledger setup.settings p checks f = (l, skipped))
    (hfold : foldAll setup.classifier p (plan checks l) = .ok (q, eliminated)) :
    run setup p checks f = .ok (q, report setup p checks f l skipped eliminated) := by
  rw [run, hledger]
  dsimp only
  rw [hfold]
  rfl

/-- Checks that belong to the program are analysed to the end: the eliminated checks are those of
the ledger, they are folded, and the report is drawn up on them. -/
theorem run_eq_report (setup : Setup) {p : Program} {checks : Inventory}
    (h : checks.Belongs p setup.classifier) (f : Findings) :
    ∃ eliminated : List Elimination,
      eliminated.map (fun e => (e.check, e.reason)) =
        (ledger setup.settings p checks f).1.entries ∧
      run setup p checks f =
        .ok (p.foldEach setup.classifier
            (eliminated.filterMap fun e => setup.classifier.sanitizer? e.check),
          report setup p checks f (ledger setup.settings p checks f).1
            (ledger setup.settings p checks f).2 eliminated) := by
  obtain ⟨eliminated, hentries, hfold⟩ :=
    h.foldAll_plan (grounded_ledger setup.settings h f).entered
  refine ⟨eliminated, hentries, ?_⟩
  simp only [run, hfold]
  rfl

/-- The report of a run on checks that belong to the program lists the ledger, and its checks are
folded. -/
theorem run_eq_ok (setup : Setup) {p : Program} {checks : Inventory}
    (h : checks.Belongs p setup.classifier) (f : Findings) :
    ∃ r : Report, r.Lists (ledger setup.settings p checks f).1 ∧
      run setup p checks f =
        .ok (p.foldEach setup.classifier (r.eliminatedChecks setup.classifier), r) := by
  obtain ⟨eliminated, hentries, hrun⟩ := run_eq_report setup h f
  exact ⟨report setup p checks f _ _ eliminated, hentries, hrun⟩

end Analysis

/-- Where a run takes its findings about a program from. -/
inductive FindingsSource where
  /-- They are given. -/
  | given (f : Findings)
  /-- They are looked for among files. -/
  | files (t : FileTree)

namespace Setup

/-- Analyse a program with findings from either source. -/
def runFrom (setup : Setup) (p : Program) : FindingsSource → Except RunError (Program × Report)
  | .given f => Analysis.runWith setup p f
  | .files t => setup.runUnit t p

/-- What a source says about the checks of a program. -/
def findings (setup : Setup) (p : Program) (checks : Inventory) : FindingsSource → Findings
  | .given f => f
  | .files t => Findings.load setup.settings.traces t p.name checks

/-- A run takes stock of the checks and analyses them with what the source says. -/
theorem runFrom_eq (setup : Setup) (p : Program) (source : FindingsSource) :
    setup.runFrom p source = (Inventory.take p setup.classifier).bind fun checks =>
      Analysis.run setup p checks (setup.findings p checks source) := by
  cases source <;> rfl

/-- Checks that belong to the program are analysed with what the source says. -/
theorem runFrom_of_belongs {setup : Setup} {p : Program} {checks : Inventory}
    (h : checks.Belongs p setup.classifier) (source : FindingsSource) :
    setup.runFrom p source = Analysis.run setup p checks (setup.findings p checks source) := by
  rw [runFrom_eq, (Inventory.take_eq_ok_iff p setup.classifier checks).mpr h]
  rfl

/-- Only checks that belong to the program get a report. -/
theorem belongs_of_runFrom {setup : Setup} {p q : Program} {source : FindingsSource} {r : Report}
    (h : setup.runFrom p source = .ok (q, r)) :
    ∃ checks : Inventory, checks.Belongs p setup.classifier := by
  rw [runFrom_eq] at h
  cases htake : Inventory.take p setup.classifier with
  | error cause =>
    rw [htake] at h
    cases h
  | ok checks => exact ⟨checks, (Inventory.take_eq_ok_iff p setup.classifier checks).mp htake⟩

/-- A run gives a folded program and a report of which something is true. -/
def Gives (setup : Setup) (p : Program) (source : FindingsSource)
    (holds : Program → Report → Prop) : Prop :=
  ∃ q r, setup.runFrom p source = .ok (q, r) ∧ holds q r

instance (setup : Setup) (p : Program) (source : FindingsSource)
    (holds : Program → Report → Prop) [∀ q r, Decidable (holds q r)] :
    Decidable (setup.Gives p source holds) :=
  match hrun : setup.runFrom p source with
  | .ok (q, r) =>
    decidable_of_iff (holds q r)
      ⟨fun h => ⟨q, r, hrun, h⟩, fun ⟨q', r', hrun', h⟩ => by
        obtain ⟨rfl, rfl⟩ := Prod.mk.inj (Except.ok.inj (hrun.symm.trans hrun'))
        exact h⟩
  | .error _ => isFalse fun ⟨_, _, hrun', _⟩ => by cases hrun.symm.trans hrun'

/-- What is true of the one report of a run is true of it together. -/
theorem Gives.and {setup : Setup} {p : Program} {source : FindingsSource}
    {first second : Program → Report → Prop} (h : setup.Gives p source first)
    (h' : setup.Gives p source second) :
    setup.Gives p source fun q r => first q r ∧ second q r := by
  obtain ⟨q, r, hrun, hfirst⟩ := h
  obtain ⟨q', r', hrun', hsecond⟩ := h'
  obtain ⟨rfl, rfl⟩ := Prod.mk.inj (Except.ok.inj (hrun.symm.trans hrun'))
  exact ⟨q, r, hrun, hfirst, hsecond⟩

/-- The report of a run lists the ledger of the checks of the program and what the source says about
them; the listed checks are folded in this order. -/
theorem ledger_of_runFrom {setup : Setup} {p q : Program} {source : FindingsSource} {r : Report}
    (h : setup.runFrom p source = .ok (q, r)) : ∃ checks : Inventory,
      checks.Belongs p setup.classifier ∧
      r.Lists (Analysis.ledger setup.settings p checks (setup.findings p checks source)).1 ∧
      q = p.foldEach setup.classifier (r.eliminatedChecks setup.classifier) := by
  obtain ⟨checks, hbelongs⟩ := belongs_of_runFrom h
  obtain ⟨r', hlists, hok⟩ :=
    Analysis.run_eq_ok setup hbelongs (setup.findings p checks source)
  rw [runFrom_of_belongs hbelongs, hok] at h
  obtain ⟨rfl, rfl⟩ := Prod.mk.inj (Except.ok.inj h)
  exact ⟨checks, hbelongs, hlists, rfl⟩

/-- Behind every report there are checks that belong to the program and a ledger of them that
the report lists; the listed checks are folded in this order. -/
theorem of_runFrom_eq_ok {setup : Setup} {p q : Program} {source : FindingsSource} {r : Report}
    (h : setup.runFrom p source = .ok (q, r)) : ∃ checks f,
      checks.Belongs p setup.classifier ∧
      r.Lists (Analysis.ledger setup.settings p checks f).1 ∧
      q = p.foldEach setup.classifier (r.eliminatedChecks setup.classifier) := by
  obtain ⟨checks, hbelongs, hlists, hq⟩ := ledger_of_runFrom h
  exact ⟨checks, setup.findings p checks source, hbelongs, hlists, hq⟩

/-- On a program that the checks belong to, a run gives what holds of every report that lists
the ledger of a run. -/
theorem gives_of_belongs {setup : Setup} {p : Program} {checks : Inventory}
    (h : checks.Belongs p setup.classifier) (source : FindingsSource)
    {holds : Program → Report → Prop}
    (hall : ∀ f q r, r.Lists (Analysis.ledger setup.settings p checks f).1 → holds q r) :
    setup.Gives p source holds := by
  obtain ⟨r, hlists, hok⟩ := Analysis.run_eq_ok setup h (setup.findings p checks source)
  exact ⟨_, r, (runFrom_of_belongs h source).trans hok, hall _ _ r hlists⟩

end Setup

end GuardElision
