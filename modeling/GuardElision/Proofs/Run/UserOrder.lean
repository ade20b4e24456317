import GuardElision.Proofs.Redundancy.Alike
import GuardElision.Proofs.Run.Accounting
import Mathlib.Data.List.Forall2

/-!
# The order of the user checks

User checks are gone through twice, in the first phase together with their records and at the start
of the third, and each time the first one that covers a sanitizer check is entered as the reason.
Their order decides which user check that is, and nothing else as long as every sanitizer check is
filed under one total: what is offered for a check is the same in every order, any two offers for it
agree but for the user check they name, and the ledgers of the two runs hold the same checks when
the sanitizer checks take their turns. A table that files a check under two totals offers it with
two counts, and the order decides which of them is reported.
-/

namespace GuardElision

/-- No check is filed under two totals. -/
def PatternTable.FilesOnce (t : PatternTable) : Prop :=
  ∀ total total' entry entry', entry ∈ bucket t total → entry' ∈ bucket t total' →
    entry.ordinal = entry'.ordinal → total = total'

/-- The coverage of the sanitizer checks, if there is any, files no check under two totals. -/
def Findings.FilesOnce (f : Findings) : Prop :=
  ∀ e, f.evidence.sanitizer = some e → PatternTable.FilesOnce e.table

/-- Coverage that was read from a trace files every check under its own total. -/
theorem Findings.Ingested.filesOnce {f : Findings} {checks : List Check} (h : f.Ingested checks) :
    f.FilesOnce := by
  intro e he total total' entry entry' hentry hentry' hordinal
  obtain ⟨records, rfl, _⟩ := h.records he
  obtain ⟨r, hr, htotal⟩ := SanitizerEvidence.of_mem_bucket_ofRecords hentry
  obtain ⟨r', hr', htotal'⟩ := SanitizerEvidence.of_mem_bucket_ofRecords hentry'
  have hsame : r = r' := by
    rw [hordinal] at hr
    exact Option.some.inj (hr.symm.trans hr')
  rw [← htotal, ← htotal', hsame]

/-- User checks in two orders, each with its own record where there are records. -/
inductive Reordered (users users' : List Check) :
    Option (List Record) → Option (List Record) → Prop where
  | unrecorded : users.Perm users' → Reordered users users' none none
  | recorded {records records' : List Record} : users.Perm users' →
      (users.zip records).Perm (users'.zip records') →
      Reordered users users' (some records) (some records')

theorem Reordered.perm {users users' : List Check} {records records' : Option (List Record)}
    (h : Reordered users users' records records') : users.Perm users' := by
  cases h <;> assumption

/-- In both orders a user check has the same record. -/
theorem Reordered.mem_zip_iff {users users' : List Check} {records records' : Option (List Record)}
    (h : Reordered users users' records records') (c : Check) (r : Record) :
    (∃ found, records = some found ∧ (c, r) ∈ users.zip found) ↔
      ∃ found, records' = some found ∧ (c, r) ∈ users'.zip found := by
  cases h with
  | unrecorded => simp
  | recorded _ hpaired =>
    constructor
    · rintro ⟨found, hfound, hmem⟩
      obtain rfl := Option.some.inj hfound
      exact ⟨_, rfl, hpaired.mem_iff.mp hmem⟩
    · rintro ⟨found, hfound, hmem⟩
      obtain rfl := Option.some.inj hfound
      exact ⟨_, rfl, hpaired.mem_iff.mpr hmem⟩

/-- The checks with the user checks replaced. -/
def Inventory.withUsers (checks : Inventory) (users : List Check) : Inventory :=
  { checks with user := users }

/-- The findings with the records of the user checks replaced. -/
def Findings.withUserRecords (f : Findings) (records : Option (List Record)) : Findings :=
  { f with evidence.user := records }

/-- The setup with the user checks replaced. -/
def Setup.withUsers (setup : Setup) (users : List Check) : Setup :=
  { setup with classifier.user := users }

/-- Two reasons that differ at most in which user check they name and, unless `counted` holds, in
the count of the first phase. -/
structure Reason.Alike (users : List Check) (counted : Prop) (a b : Reason) : Prop where
  phase_eq : a.phase = b.phase
  coverer : a.coverer = b.coverer ∨
    (∃ u ∈ users, u.id = a.coverer) ∧ ∃ u ∈ users, u.id = b.coverer
  count_eq : counted ∨ a.phase ≠ .user → a.count = b.count

theorem Reason.Alike.refl (users : List Check) (counted : Prop) (reason : Reason) :
    Reason.Alike users counted reason reason :=
  ⟨rfl, .inl rfl, fun _ => rfl⟩

/-- Two eliminations of one check, with the same outcome, whose reasons are alike. -/
structure Elimination.Alike (users : List Check) (counted : Prop) (x y : Elimination) : Prop where
  check_eq : x.check = y.check
  outcome_eq : x.outcome = y.outcome
  reason : x.reason.Alike users counted y.reason

/-- Two reports that differ at most in which user checks they name and, unless `counted` holds, in
the counts of the first phase and the weights that are left. -/
structure Report.Alike (users : List Check) (counted : Prop) (r r' : Report) : Prop where
  eliminated : List.Forall₂ (Elimination.Alike users counted) r.eliminated r'.eliminated
  rest : r' = { r with
    eliminated := r'.eliminated
    weightAfterPhase1 := r'.weightAfterPhase1
    weightAfterPhase2 := r'.weightAfterPhase2
    weightAfterPhase3 := r'.weightAfterPhase3 }
  weights : counted → ∀ phase, r'.weightAfter phase = r.weightAfter phase

namespace Ledger.Alike

variable {related : Reason → Reason → Prop} {l l' : Ledger}

/-- Ledgers that hold the same checks list them in the same order. -/
theorem forall₂_entries (h : Alike related l l') :
    List.Forall₂ (fun e e' => e.1 = e'.1 ∧ related e.2 e'.2) l.entries l'.entries := by
  have hascending : ∀ m : Ledger, Ascending (m.entries.map fun e => (e.1, ())) := by
    intro m
    exact List.pairwise_map.mpr m.ascending
  have hmem : ∀ (m : Ledger) (id : CheckId),
      (id, ()) ∈ m.entries.map (fun e => (e.1, ())) ↔ m.contains id = true := by
    intro m id
    rw [contains_iff, List.mem_map]
    constructor
    · rintro ⟨⟨other, reason⟩, he, heq⟩
      obtain ⟨rfl, _⟩ := Prod.mk.inj heq
      exact ⟨reason, (m.mem_entries_iff other reason).mp he⟩
    · rintro ⟨reason, hfind⟩
      exact ⟨(id, reason), (m.mem_entries_iff id reason).mpr hfind, rfl⟩
  have hkeys : l.entries.map (fun e => (e.1, ())) = l'.entries.map fun e => (e.1, ()) := by
    refine (hascending l).eq_of_mem_iff (hascending l') fun ⟨id, _⟩ => ?_
    rw [hmem, hmem, h.contains_eq]
  have hpaired : List.Forall₂ (fun e e' : CheckId × Reason => (e.1, ()) = (e'.1, ())) l.entries
      l'.entries := by
    rw [← List.forall₂_map_right_iff, ← List.forall₂_map_left_iff, hkeys]
    exact List.forall₂_refl _
  obtain ⟨hlength, hzip⟩ := List.forall₂_iff_zip.mp hpaired
  refine List.forall₂_iff_zip.mpr ⟨hlength, fun {e e'} hpair => ?_⟩
  have hid : e.1 = e'.1 := (Prod.mk.inj (hzip hpair)).1
  obtain ⟨he, he'⟩ := List.of_mem_zip hpair
  have hrel := h e.1
  rw [(l.mem_entries_iff e.1 e.2).mp he, hid, (l'.mem_entries_iff e'.1 e'.2).mp he'] at hrel
  cases hrel with
  | some hrelated => exact ⟨hid, hrelated⟩

/-- The reasons agree in whatever related reasons agree in. -/
theorem map_values_eq (h : Alike related l l') {γ : Type} {view : Reason → γ}
    (hview : ∀ a b, related a b → view a = view b) : l.values.map view = l'.values.map view := by
  rw [SortedMap.values, SortedMap.values, List.map_map, List.map_map, ← List.forall₂_eq_eq_eq,
    List.forall₂_map_left_iff, List.forall₂_map_right_iff]
  exact h.forall₂_entries.imp fun _ _ he => hview _ _ he.2

end Ledger.Alike

namespace Ledger.Alike

variable {users : List Check} {counted : Prop} {l l' : Ledger}

theorem countThrough_eq (h : Alike (Reason.Alike users counted) l l') (phase : Phase) :
    countThrough l' phase = countThrough l phase := by
  have hphases := h.map_values_eq fun _ _ hreason => hreason.phase_eq
  have hfilter : ∀ m : Ledger, countThrough m phase =
      ((m.values.map Reason.phase).filter fun x => x.index ≤ phase.index).length := by
    intro m
    rw [List.filter_map, List.length_map]
    rfl
  rw [hfilter, hfilter, hphases]

theorem weightThrough_eq (h : Alike (Reason.Alike users counted) l l') (hcounted : counted)
    (phase : Phase) : weightThrough l' phase = weightThrough l phase := by
  have hviews : l.values.map (fun reason => (reason.count, reason.phase)) =
      l'.values.map fun reason => (reason.count, reason.phase) :=
    h.map_values_eq fun _ _ hreason =>
      Prod.ext (hreason.count_eq (.inl hcounted)) hreason.phase_eq
  have hfilter : ∀ m : Ledger, (reasonsThrough m phase).map Reason.count =
      ((m.values.map fun reason => (reason.count, reason.phase)).filter
        fun x => x.2.index ≤ phase.index).map Prod.fst := by
    intro m
    rw [List.filter_map, List.map_map]
    rfl
  rw [weightThrough, weightThrough, hfilter, hfilter, hviews]

end Ledger.Alike

namespace Analysis

open Phases Compare

variable (s : Settings) (p : Program) {checks : Inventory} {f : Findings} {users : List Check}
  {records : Option (List Record)}

/-- In every order the first phase makes the same offers. -/
private theorem settles_userPass_reordered
    (h : Reordered checks.user users f.evidence.user records) :
    Settles p (fun id reason => ∃ candidate, candidate.id = id ∧
        ∃ sanitizer records, s.phases.user = true ∧ f.evidence.sanitizer = some sanitizer ∧
          f.evidence.user = some records ∧
          UserOffer (strategy s) p checks sanitizer.table records candidate reason)
      (userPass s p (checks.withUsers users) (f.withUserRecords records).evidence) := by
  refine (settles_userPass s p (checks.withUsers users) (f.withUserRecords records)).congr
    fun id reason => ?_
  constructor
  · rintro ⟨candidate, hid, sanitizer, found', hon, hsanitizer, hfound', coverer, r, hmem, hrest⟩
    obtain ⟨found, hfound, hmem⟩ := (h.mem_zip_iff coverer r).mpr ⟨found', hfound', hmem⟩
    exact ⟨candidate, hid, sanitizer, found, hon, hsanitizer, hfound, coverer, r, hmem, hrest⟩
  · rintro ⟨candidate, hid, sanitizer, found, hon, hsanitizer, hfound, coverer, r, hmem, hrest⟩
    obtain ⟨found', hfound', hmem⟩ := (h.mem_zip_iff coverer r).mp ⟨found, hfound, hmem⟩
    exact ⟨candidate, hid, sanitizer, found', hon, hsanitizer, hfound', coverer, r, hmem, hrest⟩

/-- In every order the user checks cover the same checks by dominance. -/
private theorem settles_byUsers_reordered (hperm : checks.user.Perm users) :
    Settles p (fun id reason => ∃ candidate, candidate.id = id ∧
        ∃ coverer, s.phases.dominance = true ∧
          CoveredByUser (strategy s) p (.ofProgram p) checks f.evidence candidate coverer reason)
      (byUsers s p (checks.withUsers users) (f.withUserRecords records)) := by
  refine (settles_byUsersPass s p (checks.withUsers users) (f.withUserRecords records)).congr
    fun id reason => ?_
  constructor
  · rintro ⟨candidate, hid, coverer, hon, h⟩
    exact ⟨candidate, hid, coverer, hon, h.candidate_mem, hperm.mem_iff.mpr h.coverer_mem,
      h.placed, h.subsumed, h.reason_eq⟩
  · rintro ⟨candidate, hid, coverer, hon, h⟩
    exact ⟨candidate, hid, coverer, hon, h.candidate_mem, hperm.mem_iff.mp h.coverer_mem,
      h.placed, h.subsumed, h.reason_eq⟩

theorem parallel_userPass (hdistinct : checks.Distinct)
    (h : Reordered checks.user users f.evidence.user records) :
    Parallel p (Reason.Alike checks.user f.FilesOnce) (userPass s p checks f.evidence)
      (userPass s p (checks.withUsers users) (f.withUserRecords records).evidence) := by
  refine (settles_userPass s p checks f).parallel (settles_userPass_reordered s p h) ?_
  rintro _ _ _ ⟨c, rfl, sanitizer, _, _, hs, _, u, _, hu, count, entry, hprobe, hget, _, rfl⟩
    ⟨c', hid, sanitizer', _, _, hs', _, u', _, hu', count', entry', hprobe', hget', _, rfl⟩
  refine ⟨rfl, .inr ⟨⟨u, (List.of_mem_zip hu).1, rfl⟩, u', (List.of_mem_zip hu').1, rfl⟩, ?_⟩
  rintro (hfiled | hphase)
  · obtain rfl := Option.some.inj (hs.symm.trans hs')
    have hordinal : entry.ordinal = entry'.ordinal := hdistinct.position_eq hget hget' hid.symm
    exact hfiled sanitizer hs count count' entry entry' hprobe.mem_bucket hprobe'.mem_bucket hordinal
  · exact absurd rfl hphase

theorem parallel_byUsers (h : Reordered checks.user users f.evidence.user records) :
    Parallel p (Reason.Alike checks.user f.FilesOnce) (byUsers s p checks f)
      (byUsers s p (checks.withUsers users) (f.withUserRecords records)) := by
  refine (settles_byUsersPass s p checks f).parallel (settles_byUsers_reordered s p h.perm) ?_
  rintro _ _ _ ⟨c, rfl, u, _, hcovered⟩ ⟨c', hid, u', _, hcovered'⟩
  rw [hcovered.reason_eq, hcovered'.reason_eq, hid]
  exact ⟨rfl, .inr ⟨⟨u, hcovered.coverer_mem, rfl⟩, u', hcovered'.coverer_mem, rfl⟩, fun _ => rfl⟩

section

variable {related : Reason → Reason → Prop} (hrefl : ∀ reason, related reason reason)
  (checks : Inventory) (f : Findings)

include hrefl

theorem parallel_coverageLedger :
    Parallel p related (coverageLedger s p checks f) (coverageLedger s p checks f) := by
  unfold coverageLedger coveragePass
  cases f.evidence.sanitizer with
  | none => exact parallel_pure
  | some sanitizer =>
    cases f.trace with
    | none => exact parallel_pure
    | some trace =>
      dsimp only
      cases s.phases.coverage with
      | false => exact parallel_pure
      | true =>
        cases Trace.read checks.sanitizer trace with
        | error cause => exact parallel_pure
        | ok found => exact parallel_coverage hrefl (strategy s) p checks sanitizer.table found

theorem parallel_bySanitizers :
    Parallel p related (bySanitizers s p checks f) (bySanitizers s p checks f) := by
  unfold bySanitizers
  cases s.phases.dominance with
  | false => exact parallel_pure
  | true => exact parallel_turns hrefl (strategy s) p checks (.ofProgram p) f.evidence

end

/-- The ledgers of runs with the user checks in two orders hold the same checks, for alike
reasons. -/
theorem alike_ledger (hdistinct : checks.Distinct)
    (h : Reordered checks.user users f.evidence.user records) :
    Ledger.Alike (Reason.Alike checks.user f.FilesOnce) (ledger s p checks f).1
      (ledger s p (checks.withUsers users) (f.withUserRecords records)).1 := by
  have hrefl := Reason.Alike.refl checks.user f.FilesOnce
  have hcounts := (parallel_userPass s p hdistinct h).seq
    (parallel_coverageLedger s p hrefl checks f)
  have hdominance := (parallel_byUsers s p h).seq
    (parallel_bySanitizers s p hrefl checks f)
  rw [ledger_eq, ledger_eq]
  exact ((hcounts.seq hdominance) .empty .empty {} {} (fun _ => .none) (Session.faithful_fresh p)
    (Session.faithful_fresh p)).1

/-- What the second phase warns of does not depend on the ledger. -/
private theorem coveragePass_warnings (checks : Inventory) (f : Findings) (l : Ledger)
    (session : Session) :
    (coveragePass s p checks f l session).1.2 = (coveragePass s p checks f .empty {}).1.2 := by
  unfold coveragePass
  cases f.evidence.sanitizer with
  | none => rfl
  | some sanitizer =>
    cases f.trace with
    | none => rfl
    | some trace =>
      dsimp only
      cases s.phases.coverage with
      | false => rfl
      | true => cases Trace.read checks.sanitizer trace <;> rfl

theorem ledger_warnings_eq : (ledger s p (checks.withUsers users) (f.withUserRecords records)).2 =
    (ledger s p checks f).2 := by
  have hwarnings : ∀ checks f,
      (ledger s p checks f).2 = (coveragePass s p checks f .empty {}).1.2 :=
    fun checks f => coveragePass_warnings s p checks f _ _
  rw [hwarnings, hwarnings]
  rfl

variable {related : Reason → Reason → Prop} {l l' : Ledger}

/-- Of ledgers that hold the same checks, the same checks are planned. -/
theorem forall₂_plan (checks : Inventory) (h : Ledger.Alike related l l') :
    List.Forall₂ (fun e e' => e.1 = e'.1 ∧ related e.2 e'.2) (plan checks l) (plan checks l') := by
  refine List.rel_filterMap ?_ h.forall₂_entries
  rintro ⟨id, reason⟩ ⟨_, reason'⟩ ⟨rfl, hrelated⟩
  cases hfind : checks.sanitizer.reverse.find? (·.id == id) with
  | none =>
    simp only [hfind]
    exact .none
  | some c =>
    simp only [hfind]
    exact .some ⟨rfl, hrelated⟩

/-- Plans of the same checks are folded to the same program, with the same outcomes. -/
theorem forall₂_foldAll {k : Classifier} (users : List Check) {p q : Program}
    {plan plan' : List (Check × Reason)} {eliminated : List Elimination}
    (h : List.Forall₂ (fun e e' => e.1 = e'.1 ∧ related e.2 e'.2) plan plan')
    (hfold : foldAll k p plan = .ok (q, eliminated)) : ∃ eliminated',
      foldAll { k with user := users } p plan' = .ok (q, eliminated') ∧
      List.Forall₂ (fun x y => x.check = y.check ∧ x.outcome = y.outcome ∧
        related x.reason y.reason) eliminated eliminated' := by
  induction h generalizing p eliminated with
  | nil =>
    cases hfold
    exact ⟨[], rfl, .nil⟩
  | @cons e e' rest rest' he _ ih =>
    obtain ⟨c, reason⟩ := e
    obtain ⟨_, reason'⟩ := e'
    obtain ⟨rfl, hrelated⟩ := he
    have hexit : Classifier.exitOf { k with user := users } c = k.exitOf c := rfl
    rw [foldAll] at hfold ⊢
    rw [hexit]
    cases hstep : p.eliminate c (k.exitOf c) with
    | error cause =>
      rw [hstep] at hfold
      cases hfold
    | ok folded =>
      rw [hstep] at hfold
      dsimp only at hfold ⊢
      cases hrest : foldAll k folded.1 rest with
      | error cause =>
        rw [hrest] at hfold
        cases hfold
      | ok tail =>
        rw [hrest] at hfold
        cases hfold
        obtain ⟨eliminated', hfold', hpaired⟩ := ih hrest
        rw [hfold']
        exact ⟨_, rfl, .cons ⟨rfl, rfl, hrelated⟩ hpaired⟩

/-- A check has one verdict in both orders of the user checks. -/
theorem verdict_eq {counted : Prop} (hperm : checks.user.Perm users)
    (h : Ledger.Alike (Reason.Alike checks.user counted) l l') (id : CheckId) :
    verdict (checks.withUsers users) l' id = verdict checks l id := by
  have hany : ∀ coverer : CheckId, users.any (·.id == coverer) =
      checks.user.any (·.id == coverer) := fun coverer => hperm.symm.any_eq
  have hid := h id
  unfold verdict
  generalize l.find? id = found, l'.find? id = found' at hid
  cases hid with
  | none => rfl
  | @some reason reason' hreason =>
    have hsame : users.any (·.id == reason'.coverer) =
        checks.user.any (·.id == reason.coverer) := by
      rw [hany]
      rcases hreason.coverer with heq | ⟨⟨u, hu, huid⟩, v, hv, hvid⟩
      · rw [heq]
      · have hfirst : checks.user.any (·.id == reason.coverer) = true :=
          List.any_eq_true.mpr ⟨u, hu, beq_iff_eq.mpr huid⟩
        have hsecond : checks.user.any (·.id == reason'.coverer) = true :=
          List.any_eq_true.mpr ⟨v, hv, beq_iff_eq.mpr hvid⟩
        rw [hfirst, hsecond]
    simp only [Inventory.withUsers, hsame]

/-- The reports that are drawn up on the two ledgers are alike. -/
theorem alike_report (setup : Setup) {counted : Prop} (hperm : checks.user.Perm users)
    (h : Ledger.Alike (Reason.Alike checks.user counted) l l') (skipped : List Warning)
    {eliminated eliminated' : List Elimination}
    (hpaired : List.Forall₂ (Elimination.Alike checks.user counted) eliminated eliminated') :
    (report setup p checks f l skipped eliminated).Alike checks.user counted
      (report (setup.withUsers users) p (checks.withUsers users) (f.withUserRecords records) l'
        skipped eliminated') := by
  have hleft : ∀ phase, leftAfter (checks.withUsers users) l' phase = leftAfter checks l phase := by
    intro phase
    rw [leftAfter, leftAfter, h.countThrough_eq]
    rfl
  have hcost : ∀ costs, costAfter l' costs = costAfter l costs := by
    intro costs
    simp only [costAfter, h.contains_eq]
  have hambiguous : ambiguities eliminated' = ambiguities eliminated := by
    induction hpaired with
    | nil => rfl
    | @cons x y _ _ hxy _ ih =>
      unfold ambiguities at ih ⊢
      rw [List.filter_cons, List.filter_cons, ← hxy.outcome_eq]
      split
      · rw [List.map_cons, List.map_cons, ih, hxy.check_eq]
      · exact ih
  have hdetail : ∀ ranking, detail? setup.settings p (checks.withUsers users) l' ranking =
      detail? setup.settings p checks l ranking := by
    intro ranking
    simp only [detail?, verdict_eq hperm h]
  refine ⟨hpaired, ?_, fun hcounted phase => ?_⟩
  · have husers : UInt64.ofNat users.length = UInt64.ofNat checks.user.length := by
      rw [hperm.length_eq]
    rw [report, report, Report.mk.injEq]
    exact ⟨rfl, husers, rfl, hleft .user, hleft .coverage, hleft .dominance, rfl, rfl, rfl, rfl,
      rfl, hcost _, rfl, congrArg _ hambiguous, rfl, hdetail _⟩
  · have hweight : ∀ weight, weightAfter weight l' phase = weightAfter weight l phase := by
      intro weight
      rw [weightAfter, weightAfter, h.weightThrough_eq hcounted]
    cases phase <;> exact hweight _

end Analysis

/-- The checks belong to the program in whatever order the user checks are listed. -/
theorem Inventory.Belongs.withUsers {p : Program} {k : Classifier} {checks : Inventory}
    {users : List Check} (h : checks.Belongs p k) (hperm : k.user.Perm users) :
    (checks.withUsers users).Belongs p { k with user := users } := by
  have hall : (k.sanitizer ++ k.user).Perm (k.sanitizer ++ users) := hperm.append_left _
  refine ⟨h.sanitizer_eq, rfl, h.cones_eq, fun c hc => ?_, ?_⟩
  · exact h.branches c (hall.mem_iff.mpr hc)
  · exact (hall.map Check.id).nodup_iff.mp h.distinct

/-- A run on the stages in which the first test of the size and the first two of the index are the
user's. -/
def pairedSetup : Setup :=
  { stagesSetup with
    classifier.sanitizer := [⟨⟨1⟩, ⟨1⟩, .sanitizer, .generic⟩, ⟨⟨4⟩, ⟨4⟩, .sanitizer, .generic⟩,
      ⟨⟨5⟩, ⟨5⟩, .sanitizer, .generic⟩]
    classifier.user := [⟨⟨100⟩, ⟨0⟩, .user, .generic⟩, ⟨⟨102⟩, ⟨2⟩, .user, .generic⟩,
      ⟨⟨103⟩, ⟨3⟩, .user, .generic⟩] }

/-- How often the sanitizer checks went either way. -/
def pairedRecords : List Record := [⟨⟨1⟩, 10, 2⟩, ⟨⟨4⟩, 7, 0⟩, ⟨⟨5⟩, 6, 1⟩]

/-- Coverage of all checks: both user tests of the index went the way of the sanitizer's. -/
def pairedFindings : Findings where
  evidence :=
    { sanitizer := some (.ofRecords pairedSetup.classifier.sanitizer pairedRecords)
      user := some [⟨⟨100⟩, 3, 3⟩, ⟨⟨102⟩, 7, 0⟩, ⟨⟨103⟩, 0, 7⟩] }
  trace := some (.memory (Trace.encode pairedRecords))

namespace Setup

/-- Whatever the program, the settings, the findings and the order in which the user checks are
listed with their records, a run ends with the same program and reports on the same checks: it
eliminates the same checks in the same phases with the same outcomes, names the same sanitizer
checks as their coverers, and counts and costs what is left the same. If no check is filed under two
totals, as in coverage that was read from a trace, it gives the same counts and weights as well, and
the reports differ only in which user checks they name. -/
theorem run_of_reordered {setup : Setup} {p : Program} {checks : Inventory}
    (haccepted : Inventory.take p setup.classifier = .ok checks) {f : Findings}
    {users : List Check} {records : Option (List Record)}
    (h : Reordered setup.classifier.user users f.evidence.user records) :
    (f.Ingested setup.classifier.sanitizer → f.FilesOnce) ∧
    ∃ q r r', Analysis.runWith setup p f = .ok (q, r) ∧
      Analysis.runWith (setup.withUsers users) p (f.withUserRecords records) = .ok (q, r') ∧
      r.Alike setup.classifier.user f.FilesOnce r' := by
  refine ⟨Findings.Ingested.filesOnce, ?_⟩
  have hb := (Inventory.take_eq_ok_iff p setup.classifier checks).mp haccepted
  have hb' : (checks.withUsers users).Belongs p (setup.withUsers users).classifier :=
    hb.withUsers h.perm
  rw [← hb.user_eq] at h ⊢
  have halike := Analysis.alike_ledger setup.settings p hb.checks_distinct h
  obtain ⟨eliminated, _, hfold⟩ :=
    hb.foldAll_plan (Analysis.grounded_ledger setup.settings hb f).entered
  obtain ⟨eliminated', hfold', hpaired⟩ :=
    Analysis.forall₂_foldAll users (Analysis.forall₂_plan checks halike) hfold
  have hrun := Analysis.run_eq_ok_of_ledger (Prod.eta _).symm hfold
  have hwarnings : Analysis.ledger (setup.withUsers users).settings p (checks.withUsers users)
      (f.withUserRecords records) = (_, (Analysis.ledger setup.settings p checks f).2) :=
    Prod.ext rfl (Analysis.ledger_warnings_eq setup.settings p)
  have hrun' := Analysis.run_eq_ok_of_ledger hwarnings hfold'
  refine ⟨_, _, _, (runFrom_of_belongs hb (.given f)).trans hrun,
    (runFrom_of_belongs hb' (.given (f.withUserRecords records))).trans hrun',
    Analysis.alike_report p setup h.perm halike _ (hpaired.imp fun x y hxy => ?_)⟩
  exact ⟨hxy.1, hxy.2.1, hxy.2.2⟩

private theorem ingested_paired :
    pairedFindings.Ingested pairedSetup.classifier.sanitizer :=
  Findings.ingested_of_read rfl rfl (by decide +kernel)

/-- With the user checks of the stages listed backwards, the other test of the index is named, and
that is all that changes. -/
theorem stages_reordered :
    Reordered pairedSetup.classifier.user pairedSetup.classifier.user.reverse
      pairedFindings.evidence.user (some [⟨⟨103⟩, 0, 7⟩, ⟨⟨102⟩, 7, 0⟩, ⟨⟨100⟩, 3, 3⟩]) ∧
    pairedFindings.FilesOnce ∧
    ∃ q r r', Analysis.runWith pairedSetup stages pairedFindings = .ok (q, r) ∧
      Analysis.runWith (pairedSetup.withUsers pairedSetup.classifier.user.reverse) stages
        (pairedFindings.withUserRecords
          (some [⟨⟨103⟩, 0, 7⟩, ⟨⟨102⟩, 7, 0⟩, ⟨⟨100⟩, 3, 3⟩])) = .ok (q, r') ∧
      r.eliminated.map (fun e => (e.check, e.reason.coverer)) = [(⟨1⟩, ⟨100⟩), (⟨4⟩, ⟨102⟩)] ∧
      r'.eliminated.map (fun e => (e.check, e.reason.coverer)) = [(⟨1⟩, ⟨100⟩), (⟨4⟩, ⟨103⟩)] ∧
      r.Alike pairedSetup.classifier.user pairedFindings.FilesOnce r' := by
  have hreordered : Reordered pairedSetup.classifier.user pairedSetup.classifier.user.reverse
      pairedFindings.evidence.user (some [⟨⟨103⟩, 0, 7⟩, ⟨⟨102⟩, 7, 0⟩, ⟨⟨100⟩, 3, 3⟩]) :=
    .recorded (by decide) (by decide)
  have hforwards : pairedSetup.Gives stages (.given pairedFindings) fun _ r =>
      r.eliminated.map (fun e => (e.check, e.reason.coverer)) =
        [(⟨1⟩, ⟨100⟩), (⟨4⟩, ⟨102⟩)] := by decide +kernel
  have hbackwards : (pairedSetup.withUsers pairedSetup.classifier.user.reverse).Gives stages
      (.given (pairedFindings.withUserRecords
        (some [⟨⟨103⟩, 0, 7⟩, ⟨⟨102⟩, 7, 0⟩, ⟨⟨100⟩, 3, 3⟩]))) fun _ r =>
      r.eliminated.map (fun e => (e.check, e.reason.coverer)) =
        [(⟨1⟩, ⟨100⟩), (⟨4⟩, ⟨103⟩)] := by decide +kernel
  obtain ⟨hfiled, q, r, r', hrun, hrun', halike⟩ := @run_of_reordered pairedSetup stages _ rfl
    pairedFindings _ _ hreordered
  obtain ⟨q₁, r₁, hrun₁, hr₁⟩ := hforwards
  obtain ⟨q₂, r₂, hrun₂, hr₂⟩ := hbackwards
  obtain ⟨rfl, rfl⟩ := Prod.mk.inj (Except.ok.inj (hrun.symm.trans hrun₁))
  obtain ⟨rfl, rfl⟩ := Prod.mk.inj (Except.ok.inj (hrun'.symm.trans hrun₂))
  exact ⟨hreordered, hfiled ingested_paired, q, r, r', hrun, hrun', hr₁, hr₂, halike⟩

end Setup

/-- Coverage of the stages that was not read from a trace: the sanitizer's test of the index is
filed a second time, under a total of its own. -/
def refiledFindings : Findings :=
  let read := SanitizerEvidence.ofRecords pairedSetup.classifier.sanitizer pairedRecords
  let table := PatternTable.push read.table 5 ⟨⟨4⟩, 5, 0, ⟨4⟩, 1⟩
  { evidence :=
      { sanitizer := some { read with table }
        user := some [⟨⟨100⟩, 3, 3⟩, ⟨⟨102⟩, 7, 0⟩, ⟨⟨103⟩, 5, 0⟩] } }

/-- When a check is filed under two totals, the order of the user checks decides with which count
it is eliminated, and how much weight is left. -/
theorem Setup.refiled_counts_follow_order :
    Reordered pairedSetup.classifier.user pairedSetup.classifier.user.reverse
      refiledFindings.evidence.user (some [⟨⟨103⟩, 5, 0⟩, ⟨⟨102⟩, 7, 0⟩, ⟨⟨100⟩, 3, 3⟩]) ∧
    (∃ checks, Inventory.take stages pairedSetup.classifier = .ok checks) ∧
    (pairedSetup.Gives stages (.given refiledFindings) fun _ r =>
      r.eliminated.map (fun e => (e.check, e.reason.phase, e.reason.count)) =
        [(⟨1⟩, .dominance, 12), (⟨4⟩, .user, 7)] ∧ r.weightAfterPhase3 = 7) ∧
    (pairedSetup.withUsers pairedSetup.classifier.user.reverse).Gives stages
      (.given (refiledFindings.withUserRecords
        (some [⟨⟨103⟩, 5, 0⟩, ⟨⟨102⟩, 7, 0⟩, ⟨⟨100⟩, 3, 3⟩]))) fun _ r =>
      r.eliminated.map (fun e => (e.check, e.reason.phase, e.reason.count)) =
        [(⟨1⟩, .dominance, 12), (⟨4⟩, .user, 5)] ∧ r.weightAfterPhase3 = 9 := by
  refine ⟨.recorded (by decide) (by decide), ⟨_, rfl⟩, ?_, ?_⟩
  · decide +kernel
  · decide +kernel

end GuardElision
