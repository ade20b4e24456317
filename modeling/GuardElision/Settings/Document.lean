import GuardElision.Exchange.Settings
import GuardElision.Yaml.Printer
import GuardElision.Yaml.Reader

/-!
# Settings documents

Settings as a YAML document of version 1. Every section may be missing or empty, no unknown
or repeated key is accepted, and settings that make no sense are refused after the document
has been read. A text takes any scalar; a number or a truth value takes a plain one, or a
literal block whose tag says that it is one.
-/

namespace GuardElision

namespace Yaml

/-- The entries of a mapping that has no keys but those named, and none twice. What stands
plainly and empty is a mapping without entries. -/
def entries? (names : List String) : Yaml → Option (List (String × Yaml))
  | .mapping entries =>
    let keys := entries.map (·.1)
    if keys.all names.contains && names.all (fun n => (keys.filter (· == n)).length ≤ 1) then
      some entries
    else none
  | .scalar _ style text => if style = .plain ∧ text = "" then some [] else none

/-- The text of a scalar. -/
def text? : Yaml → Option String
  | .scalar _ _ text => some text
  | .mapping _ => none

/-- The text of a scalar that can stand for a value of the kind that a tag of the language
names: a plain one, or a literal block with that tag. -/
def valueText? (kind : String) : Yaml → Option String
  | .scalar tag style text =>
    if style = .plain ∨ (style = .literal ∧ tag = some (.core kind)) then some text else none
  | .mapping _ => none

/-- The truth value of a scalar. -/
def bool? (y : Yaml) : Option Bool := (y.valueText? "bool").bind boolOf?

/-- The word that a scalar denotes. -/
def word? (y : Yaml) : Option UInt64 := do
  let n ← (y.valueText? "int").bind naturalOf?
  if n < UInt64.size then some (UInt64.ofNat n) else none

/-- The 32-bit word that a scalar denotes. -/
def word32? (y : Yaml) : Option UInt32 := do
  let n ← y.word?
  if n.toNat < UInt32.size then some (UInt32.ofNat n.toNat) else none

/-- The name of a variant: a scalar's text, or a tag of the application in front of
nothing. -/
def variant? : Yaml → Option String
  | .scalar (some (.custom name)) style text =>
    if style = .plain ∧ isNull text then some name else none
  | .scalar _ _ text => some text
  | .mapping _ => none

/-- Whether a node stands for nothing. A plain scalar does so without a tag; with the tag for
nothing it must be one of the words for it, and with any other tag it stands for a value. -/
def isNothing? : Yaml → Option Bool
  | .scalar none .plain text => some (isNull text)
  | .scalar (some (.core "null")) .plain text =>
    if isNull text ∧ text ≠ "" then some true else none
  | _ => some false

/-- The value of a key that must be present. -/
def required {α : Type} (entries : List (String × Yaml)) (name : String)
    (decode : Yaml → Option α) : Option α :=
  (entries.lookup name).bind decode

/-- The value of a key that has a default. -/
def defaulted {α : Type} (entries : List (String × Yaml)) (name : String) (default : α)
    (decode : Yaml → Option α) : Option α :=
  match entries.lookup name with
  | none => some default
  | some node => decode node

/-- The value of a key that may be missing or stand for nothing. -/
def optional {α : Type} (entries : List (String × Yaml)) (name : String)
    (decode : Yaml → Option α) : Option (Option α) :=
  match entries.lookup name with
  | none => some none
  | some node =>
    match node.isNothing? with
    | none => none
    | some true => some none
    | some false => (decode node).map some

/-- A text as a scalar. -/
def ofText (text : String) : Yaml := .scalar none (styleOf text) text

/-- A truth value as a scalar. -/
def ofBool (b : Bool) : Yaml := plain (if b then "true" else "false")

/-- A number as a scalar. -/
def ofNat (n : Nat) : Yaml := plain (toString n)

/-- The entry of a key, left out when there is no value. -/
def optionalEntry {α : Type} (name : String) (encode : α → Yaml) : Option α →
    List (String × Yaml)
  | none => []
  | some value => [(name, encode value)]

end Yaml

/-- How phase toggles are written as YAML. -/
def PhaseToggles.toYaml (t : PhaseToggles) : Yaml :=
  .mapping [("user_subsumption", .ofBool t.user), ("coverage_subsumption", .ofBool t.coverage),
    ("dominance_subsumption", .ofBool t.dominance)]

/-- Read phase toggles from YAML. -/
def PhaseToggles.ofYaml? (y : Yaml) : Option PhaseToggles := do
  let e ← y.entries? names
  return {
    user := ← Yaml.defaulted e "user_subsumption" true Yaml.bool?
    coverage := ← Yaml.defaulted e "coverage_subsumption" true Yaml.bool?
    dominance := ← Yaml.defaulted e "dominance_subsumption" true Yaml.bool? }

/-- How trace settings are written as YAML. -/
def TraceSettings.toYaml (t : TraceSettings) : Yaml :=
  .mapping <|
    Yaml.optionalEntry "directory" .ofText t.directory ++
    [("sanitizer_extension", .ofText t.sanitizerExtension),
      ("user_extension", .ofText t.userExtension)]

/-- Read trace settings from YAML. -/
def TraceSettings.ofYaml? (y : Yaml) : Option TraceSettings := do
  let e ← y.entries? names
  return {
    directory := ← Yaml.optional e "directory" Yaml.text?
    sanitizerExtension := ← Yaml.defaulted e "sanitizer_extension" "scov" Yaml.text?
    userExtension := ← Yaml.defaulted e "user_extension" "ucov" Yaml.text? }

/-- How an inspected check is written as YAML. -/
def InspectTarget.toYaml (t : InspectTarget) : Yaml :=
  .mapping (("check_id", .ofNat t.check.number.toNat) :: Yaml.optionalEntry "unit" .ofText t.unit)

/-- Read an inspected check from YAML. -/
def InspectTarget.ofYaml? (y : Yaml) : Option InspectTarget := do
  let e ← y.entries? names
  return {
    check := ⟨← Yaml.required e "check_id" Yaml.word?⟩
    unit := ← Yaml.optional e "unit" Yaml.text? }

/-- How report settings are written as YAML. -/
def ReportSettings.toYaml (r : ReportSettings) : Yaml :=
  .mapping <|
    Yaml.optionalEntry "path" .ofText r.path ++ [("format", .ofText r.format.name)] ++
    Yaml.optionalEntry "inspect" InspectTarget.toYaml r.inspect

/-- Read report settings from YAML. -/
def ReportSettings.ofYaml? (y : Yaml) : Option ReportSettings := do
  let e ← y.entries? names
  return {
    path := ← Yaml.optional e "path" Yaml.text?
    format := ← Yaml.defaulted e "format" .text fun node =>
      node.variant?.bind fun name => ReportFormat.names.lookup name
    inspect := ← Yaml.optional e "inspect" InspectTarget.ofYaml? }

/-- How limits are written as YAML. -/
def Limits.toYaml (l : Limits) : Yaml :=
  .mapping [("max_match_depth", .ofNat l.maxMatchDepth.toNat),
    ("induction_prefix", .ofText l.inductionStem)]

/-- Read limits from YAML. -/
def Limits.ofYaml? (y : Yaml) : Option Limits := do
  let e ← y.entries? names
  return {
    maxMatchDepth := ← Yaml.defaulted e "max_match_depth" 32 Yaml.word?
    inductionStem := ← Yaml.defaulted e "induction_prefix" "indvars" Yaml.text? }

namespace Settings

/-- What a settings document says, before it is judged. -/
structure Document where
  version : Option UInt32 := none
  level : Option String := none
  phases : Option PhaseToggles := none
  traces : Option TraceSettings := none
  report : Option ReportSettings := none
  limits : Option Limits := none
  deriving DecidableEq, Repr

/-- The document that a mapping describes. -/
def Document.ofYaml? (y : Yaml) : Option Document := do
  let e ← y.entries? ("version" :: Settings.names)
  return {
    version := ← Yaml.optional e "version" Yaml.word32?
    level := ← Yaml.optional e "level" Yaml.text?
    phases := ← Yaml.optional e "phases" PhaseToggles.ofYaml?
    traces := ← Yaml.optional e "traces" TraceSettings.ofYaml?
    report := ← Yaml.optional e "report" ReportSettings.ofYaml?
    limits := ← Yaml.optional e "limits" Limits.ofYaml? }

/-- The version a document must have. -/
def Document.checkVersion (d : Document) : Except SettingsError Unit :=
  match d.version with
  | none => .error .missingVersion
  | some found => if found = Settings.version then .ok () else .error (.unsupportedVersion found)

/-- The level a document asks for. -/
def Document.levelOf (d : Document) : Except SettingsError Level :=
  match d.level with
  | none => .ok .standard
  | some name =>
    match Level.ofName? name with
    | some level => .ok level
    | none => .error (.unknownLevel name)

/-- The settings of a document, if they make sense. -/
def ofDocument (d : Document) : Except SettingsError Settings := do
  d.checkVersion
  let settings : Settings := {
    level := ← d.levelOf
    phases := d.phases.getD {}
    traces := d.traces.getD {}
    report := d.report.getD {}
    limits := d.limits.getD {} }
  settings.validate
  return settings

/-- The document that says all of some settings. -/
def toDocument (s : Settings) : Document :=
  { version := some Settings.version
    level := some s.level.name
    phases := some s.phases
    traces := some s.traces
    report := some s.report
    limits := some s.limits }

/-- A document as a mapping; what it does not say is left out. -/
def Document.toYaml (d : Document) : Yaml :=
  .mapping <|
    Yaml.optionalEntry "version" (fun v => .ofNat v.toNat) d.version ++
    Yaml.optionalEntry "level" .ofText d.level ++
    Yaml.optionalEntry "phases" PhaseToggles.toYaml d.phases ++
    Yaml.optionalEntry "traces" TraceSettings.toYaml d.traces ++
    Yaml.optionalEntry "report" ReportSettings.toYaml d.report ++
    Yaml.optionalEntry "limits" Limits.toYaml d.limits

/-- The settings that a text describes. -/
def parse (text : String) : Except SettingsError Settings :=
  match (Yaml.parse? text).bind Document.ofYaml? with
  | none => .error .malformed
  | some d => ofDocument d

/-- The settings that the bytes of a file describe. -/
def parseBytes (bytes : List UInt8) : Except SettingsError Settings :=
  match String.fromUTF8? ⟨bytes.toArray⟩ with
  | some text => parse text
  | none => .error (.unreadable .notText)

/-- The text of the document that says all of some settings. -/
def render (s : Settings) : String := s.toDocument.toYaml.render

end Settings

end GuardElision
