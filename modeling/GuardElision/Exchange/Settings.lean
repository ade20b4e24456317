import GuardElision.Exchange.Check
import GuardElision.Settings.Basic

/-!
# Settings as JSON

The exchange form of settings. Every section and every field in it may be missing; the
sections refuse fields they do not know, the whole does not.
-/

namespace GuardElision

/-- The field names of the phase toggles. -/
def PhaseToggles.names : List String :=
  ["user_subsumption", "coverage_subsumption", "dominance_subsumption"]

/-- How phase toggles are written as JSON. -/
def PhaseToggles.toJson (t : PhaseToggles) : Json :=
  .object [("user_subsumption", .bool t.user), ("coverage_subsumption", .bool t.coverage),
    ("dominance_subsumption", .bool t.dominance)]

/-- Read phase toggles from JSON. -/
def PhaseToggles.ofJson? (j : Json) : Option PhaseToggles := do
  let f ← j.onlyFields? names
  return {
    user := ← f.defaulted "user_subsumption" true Json.bool?
    coverage := ← f.defaulted "coverage_subsumption" true Json.bool?
    dominance := ← f.defaulted "dominance_subsumption" true Json.bool? }

/-- The field names of the trace settings. -/
def TraceSettings.names : List String := ["directory", "sanitizer_extension", "user_extension"]

/-- How trace settings are written as JSON. -/
def TraceSettings.toJson (t : TraceSettings) : Json :=
  .object <|
    Json.optionalField "directory" .string t.directory ++
    [("sanitizer_extension", .string t.sanitizerExtension),
      ("user_extension", .string t.userExtension)]

/-- Read trace settings from JSON. -/
def TraceSettings.ofJson? (j : Json) : Option TraceSettings := do
  let f ← j.onlyFields? names
  return {
    directory := ← f.optional "directory" Json.string?
    sanitizerExtension := ← f.defaulted "sanitizer_extension" "scov" Json.string?
    userExtension := ← f.defaulted "user_extension" "ucov" Json.string? }

/-- The names of report formats. -/
def ReportFormat.names : List (String × ReportFormat) :=
  [("text", .text), ("jsonlines", .jsonLines)]

/-- The name of a report format. -/
def ReportFormat.name : ReportFormat → String
  | .text => "text"
  | .jsonLines => "jsonlines"

/-- How a report format is written as JSON. -/
def ReportFormat.toJson (f : ReportFormat) : Json := .string f.name

/-- Read a report format from JSON. -/
def ReportFormat.ofJson? : Json → Option ReportFormat := Json.choice? names

/-- The field names of an inspected check. -/
def InspectTarget.names : List String := ["check_id", "unit"]

/-- How an inspected check is written as JSON. -/
def InspectTarget.toJson (t : InspectTarget) : Json :=
  .object (("check_id", t.check.toJson) :: Json.optionalField "unit" .string t.unit)

/-- Read an inspected check from JSON. -/
def InspectTarget.ofJson? (j : Json) : Option InspectTarget := do
  let f ← j.onlyFields? names
  return {
    check := ← f.required "check_id" CheckId.ofJson?
    unit := ← f.optional "unit" Json.string? }

/-- The field names of the report settings. -/
def ReportSettings.names : List String := ["path", "format", "inspect"]

/-- How report settings are written as JSON. -/
def ReportSettings.toJson (r : ReportSettings) : Json :=
  .object <|
    Json.optionalField "path" .string r.path ++ [("format", r.format.toJson)] ++
    Json.optionalField "inspect" InspectTarget.toJson r.inspect

/-- Read report settings from JSON. -/
def ReportSettings.ofJson? (j : Json) : Option ReportSettings := do
  let f ← j.onlyFields? names
  return {
    path := ← f.optional "path" Json.string?
    format := ← f.defaulted "format" .text ReportFormat.ofJson?
    inspect := ← f.optional "inspect" InspectTarget.ofJson? }

/-- The field names of the limits. -/
def Limits.names : List String := ["max_match_depth", "induction_prefix"]

/-- How limits are written as JSON. -/
def Limits.toJson (l : Limits) : Json :=
  .object [("max_match_depth", .word l.maxMatchDepth),
    ("induction_prefix", .string l.inductionStem)]

/-- Read limits from JSON. -/
def Limits.ofJson? (j : Json) : Option Limits := do
  let f ← j.onlyFields? names
  return {
    maxMatchDepth := ← f.defaulted "max_match_depth" 32 Json.word?
    inductionStem := ← f.defaulted "induction_prefix" "indvars" Json.string? }

/-- The names of the sections. -/
def Settings.names : List String := ["level", "phases", "traces", "report", "limits"]

/-- How settings are written as JSON. -/
def Settings.toJson (s : Settings) : Json :=
  .object [("level", s.level.toJson), ("phases", s.phases.toJson), ("traces", s.traces.toJson),
    ("report", s.report.toJson), ("limits", s.limits.toJson)]

/-- Read settings from JSON. -/
def Settings.ofJson? (j : Json) : Option Settings := do
  let f ← j.fields? names
  return {
    level := ← f.defaulted "level" .standard Level.ofJson?
    phases := ← f.defaulted "phases" {} PhaseToggles.ofJson?
    traces := ← f.defaulted "traces" {} TraceSettings.ofJson?
    report := ← f.defaulted "report" {} ReportSettings.ofJson?
    limits := ← f.defaulted "limits" {} Limits.ofJson? }

end GuardElision
