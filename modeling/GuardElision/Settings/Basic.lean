import GuardElision.Check
import GuardElision.Files.Failure
import GuardElision.Files.Path
import GuardElision.Settings.Level

/-!
# Settings

What a run can be told: the precision level, which phases to run, where coverage traces
lie, what to report and how far comparisons may go. Every setting has a default, and
`validate` says which settings make no sense, the first fault winning.
-/

namespace GuardElision

/-- Which phases run. -/
structure PhaseToggles where
  user : Bool := true
  coverage : Bool := true
  dominance : Bool := true
  deriving DecidableEq, Repr, Inhabited

/-- Where coverage traces lie. -/
structure TraceSettings where
  /-- Without a directory there is no coverage. -/
  directory : Option String := none
  sanitizerExtension : String := "scov"
  userExtension : String := "ucov"
  deriving DecidableEq, Repr, Inhabited

/-- How reports are written. -/
inductive ReportFormat where
  | text
  | jsonLines
  deriving DecidableEq, Repr, Inhabited

/-- A check to report on in detail, in one program or in all. -/
structure InspectTarget where
  check : CheckId
  unit : Option String := none
  deriving DecidableEq, Repr, Inhabited

/-- What to report, and where. -/
structure ReportSettings where
  path : Option String := none
  format : ReportFormat := .text
  inspect : Option InspectTarget := none
  deriving DecidableEq, Repr, Inhabited

/-- How far comparisons may go. -/
structure Limits where
  maxMatchDepth : UInt64 := 32
  /-- How the names of induction variables start. -/
  inductionStem : String := "indvars"
  deriving DecidableEq, Repr, Inhabited

/-- All settings of a run. -/
structure Settings where
  level : Level := .standard
  phases : PhaseToggles := {}
  traces : TraceSettings := {}
  report : ReportSettings := {}
  limits : Limits := {}
  deriving DecidableEq, Repr, Inhabited

/-- What is wrong with settings. -/
inductive SettingsError where
  /-- The depth limit is zero or too large. -/
  | depthOutOfRange (value : UInt64)
  /-- No name of an induction variable could be told from another. -/
  | emptyStem
  /-- A trace extension is empty. -/
  | emptyExtension
  /-- Both kinds of traces have the same extension. -/
  | sharedExtension (extension : String)
  /-- A settings document does not say its version. -/
  | missingVersion
  /-- A settings document has another version. -/
  | unsupportedVersion (found : UInt32)
  | unknownLevel (name : String)
  /-- A settings file cannot be read. -/
  | unreadable (cause : FileFailure)
  /-- A settings document is not of the right form. -/
  | malformed
  deriving DecidableEq, Repr

namespace Limits

/-- The least depth limit. -/
def leastDepth : Nat := 1

/-- The greatest depth limit. -/
def greatestDepth : Nat := 256

/-- The first fault of the limits. -/
def validate (l : Limits) : Except SettingsError Unit :=
  if l.maxMatchDepth.toNat < leastDepth ∨ greatestDepth < l.maxMatchDepth.toNat then
    .error (.depthOutOfRange l.maxMatchDepth)
  else if l.inductionStem.isEmpty then .error .emptyStem
  else .ok ()

end Limits

namespace TraceSettings

/-- The first fault of the trace settings. -/
def validate (t : TraceSettings) : Except SettingsError Unit :=
  if t.sanitizerExtension.isEmpty || t.userExtension.isEmpty then .error .emptyExtension
  else if t.sanitizerExtension = t.userExtension then
    .error (.sharedExtension t.sanitizerExtension)
  else .ok ()

/-- Where the trace of a program with some extension lies. -/
def tracePath? (t : TraceSettings) (unit extension : String) : Option String :=
  t.directory.map fun directory => Path.join directory (unit ++ "." ++ extension)

/-- Where the trace of a program's sanitizer checks lies. -/
def sanitizerTrace? (t : TraceSettings) (unit : String) : Option String :=
  t.tracePath? unit t.sanitizerExtension

/-- Where the trace of a program's user checks lies. -/
def userTrace? (t : TraceSettings) (unit : String) : Option String :=
  t.tracePath? unit t.userExtension

end TraceSettings

/-- Whether a check is inspected in a program. -/
def InspectTarget.appliesTo (t : InspectTarget) (unit : String) : Bool :=
  match t.unit with
  | none => true
  | some name => name == unit

namespace Settings

/-- The first fault of the settings. -/
def validate (s : Settings) : Except SettingsError Unit := do
  s.limits.validate
  s.traces.validate

/-- Whether both phases that rely on coverage are off. -/
def isStaticOnly (s : Settings) : Bool := !s.phases.user && !s.phases.coverage

/-- The version of settings documents. -/
def version : UInt32 := 1

end Settings

/-- A conflict of settings and how to resolve it. -/
def SettingsError.conflict (issue fix : String) : String :=
  "Configuration conflict: " ++ issue ++ ". Fix: " ++ fix

/-- The report of a fault. -/
def SettingsError.message : SettingsError → String
  | .depthOutOfRange value =>
    "Invalid range for field 'limits.max_match_depth': " ++ toString value.toNat ++ " not in " ++
      toString Limits.leastDepth ++ "..=" ++ toString Limits.greatestDepth ++
      ". Structural matching needs at least one level; deep values only cost time"
  | .emptyStem =>
    conflict "limits.induction_prefix is empty and would match every merge"
      "Use the loop pass's induction name prefix, e.g. 'indvars'"
  | .emptyExtension =>
    conflict "trace extensions must not be empty"
      "Set traces.sanitizer_extension and traces.user_extension"
  | .sharedExtension extension =>
    conflict ("sanitizer and user traces share the extension '" ++ extension ++ "'")
      "Use distinct extensions (defaults: 'scov' and 'ucov')"
  | .missingVersion =>
    "Missing 'version' field in configuration file. Add 'version: 1' to the top of your YAML file."
  | .unsupportedVersion found =>
    "Unsupported configuration version " ++ toString found.toNat ++ ". Supported versions: " ++
      toString Settings.version.toNat
  | .unknownLevel name =>
    "Unknown precision level '" ++ name ++ "'. Valid levels: l0, l1, l2, l3"
  | .unreadable cause => "IO error: " ++ cause.message
  | .malformed => "YAML error"

end GuardElision
