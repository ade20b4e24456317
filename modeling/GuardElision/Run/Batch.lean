import GuardElision.Files.Tree
import GuardElision.Report.Writer
import GuardElision.Run.Analysis

/-!
# Running on files

A run looks for the coverage traces of each program among the files, analyses the programs
in order and appends a report on each to the report file. A program whose checks do not
belong to it is left alone and does not stop the run.
-/

namespace GuardElision

namespace Findings

/-- The trace at a path. -/
def traceAt (t : FileTree) (path : String) : TraceSource :=
  match t.stream path with
  | .ok stream => .ok stream
  | .error .notFound => .error (.absent path)
  | .error cause => .error (.unreadable cause)

/-- What is said about a trace that could not be used; an absent one is passed over. -/
def warn (path : String) : EvidenceError → List Warning
  | .absent _ => []
  | cause => [.mismatchedEvidence path cause.message]

/-- The records of the user checks, if their trace is good. -/
def loadUser (s : TraceSettings) (t : FileTree) (unit : String) (checks : Inventory) :
    Option (List Record) × List Warning :=
  match s.userTrace? unit with
  | none => (none, [])
  | some path =>
    match Trace.read checks.user (traceAt t path) with
    | .ok records => (some records, [])
    | .error cause => (none, warn path cause)

/-- What the files say about the checks of a program. Without good sanitizer coverage, user
coverage is not looked at. -/
def load (s : TraceSettings) (t : FileTree) (unit : String) (checks : Inventory) : Findings :=
  match s.sanitizerTrace? unit with
  | none => {}
  | some path =>
    let trace := traceAt t path
    match SanitizerEvidence.ofSource checks.sanitizer trace with
    | .error cause => { warnings := warn path cause }
    | .ok evidence =>
      let (user, warnings) := loadUser s t unit checks
      { evidence := { sanitizer := some evidence, user }, trace := some trace, warnings }

end Findings

/-- What became of one program of a batch. -/
inductive UnitOutcome where
  | completed (report : Report)
  /-- The checks do not belong to the program. -/
  | aborted (unit : String) (cause : RunError)
  deriving DecidableEq, Repr

namespace Setup

/-- A setup whose settings make sense. -/
def create (settings : Settings) (classifier : Classifier) (oracle : CostOracle) :
    Except RunError Setup :=
  match settings.validate with
  | .ok () => .ok { settings, classifier, oracle }
  | .error cause => .error (.settings cause)

/-- Analyse a program with the coverage found among the files. -/
def runUnit (setup : Setup) (t : FileTree) (p : Program) : Except RunError (Program × Report) := do
  let checks ← Inventory.take p setup.classifier
  Analysis.run setup p checks (Findings.load setup.settings.traces t p.name checks)

/-- Append to the report file, if there is one. -/
def appendReport (setup : Setup) (t : FileTree) (text : String) : Except RunError FileTree :=
  match setup.settings.report.path with
  | none => .ok t
  | some path =>
    match t.append path text.toUTF8.toList with
    | .ok t => .ok t
    | .error cause => .error (.report cause)

/-- Analyse programs in order: what became of them, the programs and the files afterwards. -/
def runEach (setup : Setup) : FileTree → List Program →
    Except RunError (List UnitOutcome × List Program × FileTree)
  | t, [] => .ok ([], [], t)
  | t, p :: rest =>
    match setup.runUnit t p with
    | .ok (folded, report) => do
      let t ← setup.appendReport t (report.render setup.settings.report.format)
      let (outcomes, programs, t) ← runEach setup t rest
      return (.completed report :: outcomes, folded :: programs, t)
    | .error cause =>
      if cause.isContractViolation then do
        let (outcomes, programs, t) ← runEach setup t rest
        return (.aborted p.name cause :: outcomes, p :: programs, t)
      else .error cause

/-- Run on a batch of programs. The report file is created before the first of them. -/
def runUnits (setup : Setup) (t : FileTree) (programs : List Program) :
    Except RunError (List UnitOutcome × List Program × FileTree) := do
  let t ← setup.appendReport t ""
  setup.runEach t programs

end Setup

end GuardElision
