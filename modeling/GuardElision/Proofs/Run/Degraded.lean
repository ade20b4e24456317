import GuardElision.Proofs.Run.Accounting

/-!
# Runs with evidence that cannot be used

Evidence is read at three points of a run: the trace of the sanitizer checks and then that of the
user checks before anything is analysed, and the first of them once more by the second phase. Each
reading may fail, because the trace cannot be opened, because it breaks off in an error behind some
of its bytes, or because these are not the records of the checks. A failure at one point takes back
no more than what that point was to contribute: the run is the one that never had the evidence,
with a warning added. Nothing of a trace that was read in part reaches the table, the weights, the
costs or the ledger.
-/

namespace GuardElision

namespace Findings

/-- What is noted about a trace that cannot be used: nothing if there is none, else one warning that
names the trace and the failure. -/
inductive Noted (path : String) : EvidenceError → List Warning → Prop where
  | absent (missing : String) : Noted path (.absent missing) []
  | mismatched {cause : EvidenceError} : (∀ missing, cause ≠ .absent missing) →
      Noted path cause [.mismatchedEvidence path cause.message]

theorem noted_warn (path : String) (cause : EvidenceError) :
    Noted path cause (warn path cause) := by
  cases cause with
  | absent missing => exact .absent missing
  | truncated expected read => exact .mismatched nofun
  | trailingRecords expected => exact .mismatched nofun
  | idMismatch position expected found => exact .mismatched nofun
  | unreadable failure => exact .mismatched nofun

variable {s : TraceSettings} {t : FileTree} {unit : String} {checks : Inventory}

/-- Without a directory there are no findings. -/
theorem load_of_directory_eq_none (h : s.directory = none) : load s t unit checks = {} := by
  simp [load, TraceSettings.sanitizerTrace?, TraceSettings.tracePath?, h]

/-- When the trace of the sanitizer checks cannot be used, all that is found is the failure. -/
theorem load_of_sanitizer_error {path : String} {cause : EvidenceError}
    (hpath : s.sanitizerTrace? unit = some path)
    (hfail : SanitizerEvidence.ofSource checks.sanitizer (traceAt t path) = .error cause) :
    load s t unit checks = { warnings := warn path cause } := by
  simp only [load, hpath, hfail]

/-- When only the trace of the user checks cannot be used, the coverage of the sanitizer checks is
found, and the failure. -/
theorem load_of_user_error {path userPath : String} {sanitizer : SanitizerEvidence}
    {cause : EvidenceError} (hpath : s.sanitizerTrace? unit = some path)
    (hingest : SanitizerEvidence.ofSource checks.sanitizer (traceAt t path) = .ok sanitizer)
    (huser : s.userTrace? unit = some userPath)
    (hfail : Trace.read checks.user (traceAt t userPath) = .error cause) :
    load s t unit checks =
      { evidence := { sanitizer := some sanitizer }, trace := some (traceAt t path),
        warnings := warn userPath cause } := by
  have hload : loadUser s t unit checks = (none, warn userPath cause) := by
    simp only [loadUser, huser, hfail]
  simp only [load, hpath, hingest, hload]

end Findings

/-- The settings with the second phase switched off. -/
def Settings.withoutCoverage (s : Settings) : Settings := { s with phases.coverage := false }

namespace Setup

/-- The setup without a directory for traces. -/
def withoutTraces (setup : Setup) : Setup := { setup with settings.traces.directory := none }

/-- The setup with the second phase switched off. -/
def withoutCoverage (setup : Setup) : Setup :=
  { setup with settings := setup.settings.withoutCoverage }

end Setup

namespace Analysis

variable (setup : Setup) (p : Program) (checks : Inventory) (f : Findings)

/-- Warnings that come with the findings stand in front of the report's own and do nothing else. -/
theorem run_warnings (noted : List Warning) :
    run setup p checks { f with warnings := noted ++ f.warnings } =
      (run setup p checks f).map fun (q, r) => (q, { r with warnings := noted ++ r.warnings }) := by
  have hledger : ledger setup.settings p checks { f with warnings := noted ++ f.warnings } =
      ledger setup.settings p checks f := rfl
  unfold run
  rw [hledger]
  cases hfold : foldAll setup.classifier p (plan checks (ledger setup.settings p checks f).1) with
  | error cause => simp only [hfold]; rfl
  | ok result =>
    simp only [hfold]
    simp [report, Except.map, pure, Except.pure, bind, Except.bind, List.append_assoc]

variable {setup p checks f}

/-- When the second phase cannot use its trace, the ledger is that of a run without this phase, and
the failure is noted. -/
theorem ledger_of_coverage_error {s : Settings} {sanitizer : SanitizerEvidence}
    {trace : TraceSource} {cause : EvidenceError} (hon : s.phases.coverage = true)
    (hsanitizer : f.evidence.sanitizer = some sanitizer) (htrace : f.trace = some trace)
    (hfail : Trace.read checks.sanitizer trace = .error cause) :
    ∃ l, ledger s.withoutCoverage p checks f = (l, []) ∧
      ledger s p checks f = (l, [.coverageSkipped cause.message]) := by
  have hskip : ∀ l, coveragePass s p checks f l = pure (l, [.coverageSkipped cause.message]) := by
    intro l
    simp only [coveragePass, hsanitizer, htrace, hon, hfail, if_true]
  have hoff : ∀ l, coveragePass s.withoutCoverage p checks f l = pure (l, []) := by
    intro l
    simp [coveragePass, hsanitizer, htrace, Settings.withoutCoverage]
  refine ⟨(ledger s.withoutCoverage p checks f).1, ?_, ?_⟩
  · unfold ledger phases
    simp only [hoff]
    rfl
  · unfold ledger phases
    simp only [hskip, hoff]
    rfl

end Analysis

namespace Setup

variable {setup : Setup} {p : Program} {checks : Inventory}

/-- A failure that the files add to other findings is noted in front of the warnings of the run on
these findings, and changes nothing else. -/
private theorem runUnit_of_noted (hb : checks.Belongs p setup.classifier) {t : FileTree}
    {f : Findings} {path : String} {cause : EvidenceError}
    (hload : Findings.load setup.settings.traces t p.name checks =
      { f with warnings := Findings.warn path cause }) (hnone : f.warnings = []) :
    ∃ q r noted, Analysis.run setup p checks f = .ok (q, r) ∧ Findings.Noted path cause noted ∧
      setup.runUnit t p = .ok (q, { r with warnings := noted ++ r.warnings }) := by
  obtain ⟨r, _, hrun⟩ := Analysis.run_eq_ok setup hb f
  have hunit : setup.runUnit t p =
      Analysis.run setup p checks (Findings.load setup.settings.traces t p.name checks) :=
    runFrom_of_belongs hb (.files t)
  have hfront : Findings.warn path cause = Findings.warn path cause ++ f.warnings := by
    rw [hnone, List.append_nil]
  refine ⟨_, r, Findings.warn path cause, hrun, Findings.noted_warn path cause, ?_⟩
  rw [hunit, hload, hfront, Analysis.run_warnings, hrun, ← hfront]
  rfl

/-- When the second phase cannot use its trace, the run is the one without this phase, with a
warning behind those of the findings. -/
private theorem runWith_of_coverage_error (hb : checks.Belongs p setup.classifier) {f : Findings}
    {sanitizer : SanitizerEvidence} {trace : TraceSource} {cause : EvidenceError}
    (hon : setup.settings.phases.coverage = true)
    (hsanitizer : f.evidence.sanitizer = some sanitizer) (htrace : f.trace = some trace)
    (hfail : Trace.read checks.sanitizer trace = .error cause) :
    ∃ q r rest, Analysis.runWith setup.withoutCoverage p f = .ok (q, r) ∧
      r.warnings = f.warnings ++ rest ∧
      Analysis.runWith setup p f =
        .ok (q, { r with warnings := f.warnings ++ .coverageSkipped cause.message :: rest }) := by
  have hb' : checks.Belongs p setup.withoutCoverage.classifier := hb
  have hwith : Analysis.runWith setup p f = Analysis.run setup p checks f :=
    runFrom_of_belongs hb (.given f)
  have hwithout : Analysis.runWith setup.withoutCoverage p f =
      Analysis.run setup.withoutCoverage p checks f := runFrom_of_belongs hb' (.given f)
  obtain ⟨l, hoff, hon⟩ := Analysis.ledger_of_coverage_error (p := p) hon hsanitizer htrace hfail
  -- both runs fold the same ledger, so they fold it to the same program and list
  obtain ⟨q, eliminated, hfold⟩ : ∃ q eliminated, Analysis.foldAll setup.classifier p
      (Analysis.plan checks l) = .ok (q, eliminated) := by
    have hentered := (Analysis.grounded_ledger setup.withoutCoverage.settings hb' f).entered
    rw [show Analysis.ledger setup.withoutCoverage.settings p checks f = (l, []) from hoff]
      at hentered
    obtain ⟨eliminated, _, hfold⟩ := hb.foldAll_plan hentered
    exact ⟨_, eliminated, hfold⟩
  refine ⟨q, _, Analysis.ambiguities eliminated,
    hwithout.trans (Analysis.run_eq_ok_of_ledger hoff hfold), ?_,
    hwith.trans ((Analysis.run_eq_ok_of_ledger hon hfold).trans ?_)⟩
  · simp only [Analysis.report, List.append_nil]
  · simp only [Analysis.report, List.append_assoc, List.singleton_append]
    rfl

/-- Once stock is taken, evidence that cannot be used leaves the run that does without it, whether
its trace cannot be opened, cannot be read to its end or does not belong to the checks. If the trace
of the sanitizer checks fails, that is the run without a directory for traces, whatever the other
files hold; if only the trace of the user checks fails, the run on the same coverage of the
sanitizer checks alone. Either way the failure is noted in front of the other warnings, and an
absent trace is not noted at all. If the second phase cannot use the trace that it reads, it is the
run with this phase switched off, and a warning says that it was skipped. -/
theorem runs_without_failed_evidence
    (haccepted : Inventory.take p setup.classifier = .ok checks) :
    (∀ t t' path cause, setup.settings.traces.sanitizerTrace? p.name = some path →
      SanitizerEvidence.ofSource checks.sanitizer (Findings.traceAt t path) = .error cause →
      ∃ q r noted, setup.withoutTraces.runUnit t' p = .ok (q, r) ∧
        Findings.Noted path cause noted ∧
        setup.runUnit t p = .ok (q, { r with warnings := noted ++ r.warnings })) ∧
    (∀ t path sanitizer userPath cause,
      setup.settings.traces.sanitizerTrace? p.name = some path →
      SanitizerEvidence.ofSource checks.sanitizer (Findings.traceAt t path) = .ok sanitizer →
      setup.settings.traces.userTrace? p.name = some userPath →
      Trace.read checks.user (Findings.traceAt t userPath) = .error cause →
      ∃ q r noted, Analysis.runWith setup p
          { evidence := { sanitizer := some sanitizer },
            trace := some (Findings.traceAt t path) } = .ok (q, r) ∧
        Findings.Noted userPath cause noted ∧
        setup.runUnit t p = .ok (q, { r with warnings := noted ++ r.warnings })) ∧
    ∀ f sanitizer trace cause, setup.settings.phases.coverage = true →
      f.evidence.sanitizer = some sanitizer → f.trace = some trace →
      Trace.read checks.sanitizer trace = .error cause →
      ∃ q r rest, Analysis.runWith setup.withoutCoverage p f = .ok (q, r) ∧
        r.warnings = f.warnings ++ rest ∧
        Analysis.runWith setup p f =
          .ok (q, { r with warnings := f.warnings ++ .coverageSkipped cause.message :: rest }) := by
  have hb := (Inventory.take_eq_ok_iff p setup.classifier checks).mp haccepted
  refine ⟨fun t t' path cause hpath hfail => ?_,
    fun t path sanitizer userPath cause hpath hingest huser hfail => ?_,
    fun f sanitizer trace cause hon hsanitizer htrace hfail =>
      runWith_of_coverage_error hb hon hsanitizer htrace hfail⟩
  · obtain ⟨q, r, noted, hrun, hnoted, hunit⟩ :=
      runUnit_of_noted (f := {}) hb (Findings.load_of_sanitizer_error hpath hfail) rfl
    refine ⟨q, r, noted, ?_, hnoted, hunit⟩
    have hb' : checks.Belongs p setup.withoutTraces.classifier := hb
    have hwithout : setup.withoutTraces.runUnit t' p = Analysis.run setup.withoutTraces p checks
        (Findings.load setup.withoutTraces.settings.traces t' p.name checks) :=
      runFrom_of_belongs hb' (.files t')
    rw [hwithout, Findings.load_of_directory_eq_none rfl]
    exact hrun
  · obtain ⟨q, r, noted, hrun, hnoted, hunit⟩ := runUnit_of_noted hb
      (f := { evidence := { sanitizer := some sanitizer },
              trace := some (Findings.traceAt t path) })
      (Findings.load_of_user_error hpath hingest huser hfail) rfl
    exact ⟨q, r, noted, (runFrom_of_belongs hb (.given _)).trans hrun, hnoted, hunit⟩

end Setup

/-- The stages under a short name. -/
def tracedStages : Program := { stages with name := "a" }

/-- The run on the stages with coverage from files in a directory. -/
def tracedSetup (directory : String) : Setup :=
  { stagesSetup with
    settings.traces :=
      { directory := some directory, sanitizerExtension := "s", userExtension := "u" } }

/-- Two files side by side in a directory under the top, in which the run works. -/
def tracedFiles (sanitizer user : FileNode) : FileTree where
  top := .directory [("w", .directory [("a.s", sanitizer), ("a.u", user)])]
  working := ["w"]

/-- What a device reports that cannot be read. -/
def deviceError : FileFailure := .other "Input/output error (os error 5)"

/-- A trace of the sanitizer checks that cannot be read behind four records. -/
def brokenTrace : ByteStream where
  bytes := Trace.encode (stagesRecords.take 4)
  fault := some deviceError

namespace Setup

/-- On the stages, whether the directory of the traces is named from the top or from where the run
works, a trace of the sanitizer checks that ends early leaves the run without traces, and so does
one that cannot be read behind some of its bytes; a trace of the user checks that cannot be opened
leaves the run without user coverage, and one that the second phase can read only in part the run
without this phase. -/
theorem stages_without_failed_evidence :
    (∃ q r, (tracedSetup "/w").withoutTraces.runUnit .empty tracedStages = .ok (q, r) ∧
      (tracedSetup "/w").runUnit
          (tracedFiles (.file ((Trace.encode stagesRecords).take 40))
            (.file (Trace.encode [⟨⟨100⟩, 10, 2⟩]))) tracedStages =
        .ok (q, { r with warnings :=
          .mismatchedEvidence "/w/a.s" (EvidenceError.truncated 5 1).message :: r.warnings })) ∧
    (∃ q r, (tracedSetup "").withoutTraces.runUnit .empty tracedStages = .ok (q, r) ∧
      (tracedSetup "").runUnit
          (tracedFiles (.file (Trace.encode stagesRecords) (some ⟨40, deviceError⟩)) .empty)
          tracedStages =
        .ok (q, { r with warnings :=
          .mismatchedEvidence "a.s" (EvidenceError.unreadable deviceError).message ::
            r.warnings })) ∧
    (∃ q r, Analysis.runWith (tracedSetup "/w") tracedStages
          { stagesFindings with evidence.user := none } = .ok (q, r) ∧
      (tracedSetup "/w").runUnit
          (tracedFiles (.file (Trace.encode stagesRecords)) (.closed deviceError)) tracedStages =
        .ok (q, { r with warnings :=
          .mismatchedEvidence "/w/a.u" (EvidenceError.unreadable deviceError).message ::
            r.warnings })) ∧
    ∃ q r rest, Analysis.runWith (tracedSetup "").withoutCoverage tracedStages
          { stagesFindings with trace := some (.ok brokenTrace) } = .ok (q, r) ∧
      r.warnings = rest ∧
      Analysis.runWith (tracedSetup "") tracedStages
          { stagesFindings with trace := some (.ok brokenTrace) } =
        .ok (q, { r with warnings :=
          .coverageSkipped (EvidenceError.unreadable deviceError).message :: rest }) := by
  have haccepted : ∀ directory,
      Inventory.take tracedStages (tracedSetup directory).classifier =
        .ok ⟨stagesSetup.classifier.sanitizer, stagesSetup.classifier.user,
          stagesSetup.classifier.sanitizer.map (stagesSetup.classifier.coneOf tracedStages)⟩ :=
    fun _ => rfl
  refine ⟨?_, ?_, ?_, ?_⟩
  · have hfail : SanitizerEvidence.ofSource stagesSetup.classifier.sanitizer
        (Findings.traceAt (tracedFiles (.file ((Trace.encode stagesRecords).take 40))
          (.file (Trace.encode [⟨⟨100⟩, 10, 2⟩]))) "/w/a.s") = .error (.truncated 5 1) :=
      SanitizerEvidence.ofSource_eq_error_iff.mpr (by decide +kernel)
    obtain ⟨q, r, noted, hwithout, hnoted, hrun⟩ :=
      (runs_without_failed_evidence (haccepted "/w")).1 _ .empty "/w/a.s" _ (by decide +kernel)
        hfail
    cases hnoted
    exact ⟨q, r, hwithout, hrun⟩
  · have hfail : SanitizerEvidence.ofSource stagesSetup.classifier.sanitizer
        (Findings.traceAt (tracedFiles
          (.file (Trace.encode stagesRecords) (some ⟨40, deviceError⟩)) .empty) "a.s") =
          .error (.unreadable deviceError) :=
      SanitizerEvidence.ofSource_eq_error_iff.mpr (by decide +kernel)
    obtain ⟨q, r, noted, hwithout, hnoted, hrun⟩ :=
      (runs_without_failed_evidence (haccepted "")).1 _ .empty "a.s" _ (by decide +kernel) hfail
    cases hnoted
    exact ⟨q, r, hwithout, hrun⟩
  · have htrace : Findings.traceAt (tracedFiles (.file (Trace.encode stagesRecords))
        (.closed deviceError)) "/w/a.s" = .memory (Trace.encode stagesRecords) := by
      decide +kernel
    have hingest : SanitizerEvidence.ofSource stagesSetup.classifier.sanitizer
        (Findings.traceAt (tracedFiles (.file (Trace.encode stagesRecords))
          (.closed deviceError)) "/w/a.s") =
          .ok (.ofRecords stagesSetup.classifier.sanitizer stagesRecords) := by
      rw [htrace]
      exact SanitizerEvidence.ofSource_eq_ok_iff.mpr ⟨_, by decide +kernel, rfl⟩
    obtain ⟨q, r, noted, hwithout, hnoted, hrun⟩ :=
      (runs_without_failed_evidence (haccepted "/w")).2.1 _ "/w/a.s" _ "/w/a.u"
        (.unreadable deviceError) (by decide +kernel) hingest (by decide +kernel)
        (by decide +kernel)
    cases hnoted
    rw [htrace] at hwithout
    exact ⟨q, r, hwithout, hrun⟩
  · have hfail : Trace.read stagesSetup.classifier.sanitizer (.ok brokenTrace) =
        .error (.unreadable deviceError) := by decide +kernel
    exact (runs_without_failed_evidence (haccepted "")).2.2
      { stagesFindings with trace := some (.ok brokenTrace) } _ _ _ rfl rfl rfl hfail

end Setup

end GuardElision
