import GuardElision.Exchange.Check
import GuardElision.Report.Basic

/-!
# Reports as JSON

The exchange form of a report, with its fields in the order in which they are declared. A
warning carries its kind among its fields; its other fields follow the kind. As an array, a
warning is its kind followed by those fields. A report is read from a text or from a value;
the two differ in how the constant of a folded branch may be given.
-/

namespace GuardElision

/-- The names of evidence modes. -/
def EvidenceMode.names : List (String × EvidenceMode) :=
  [("dynamic", .dynamic), ("static_only", .staticOnly)]

/-- How an evidence mode is written as JSON. -/
def EvidenceMode.toJson : EvidenceMode → Json
  | .dynamic => .string "dynamic"
  | .staticOnly => .string "static_only"

/-- Read an evidence mode from JSON. -/
def EvidenceMode.ofJson? : Json → Option EvidenceMode := Json.choice? names

/-- How a warning is written as JSON. -/
def Warning.toJson : Warning → Json
  | .mismatchedEvidence trace reason =>
    .object [("kind", .string "mismatched_evidence"), ("trace", .string trace),
      ("reason", .string reason)]
  | .coverageSkipped reason =>
    .object [("kind", .string "coverage_skipped"), ("reason", .string reason)]
  | .ambiguousOutcome check =>
    .object [("kind", .string "ambiguous_outcome"), ("check", check.toJson)]

/-- The kind of a warning, and what remains to be decoded. -/
def Warning.kind? : Json → Option (String × Json)
  | .object members =>
    if Json.Fields.single members "kind" then do
      let kind ← (members.lookup "kind").bind Json.string?
      return (kind, .object (members.filter fun m => m.1 != "kind"))
    else none
  | .array (kind :: rest) => do return (← kind.string?, .array rest)
  | _ => none

/-- Read a warning from JSON. The kind can stand anywhere, so everything around it is read
before it is known what is asked for, and must denote something. -/
def Warning.ofJson? (j : Json) : Option Warning := do
  match ← kind? (← if j.isSound then some j else none) with
  | ("mismatched_evidence", data) =>
    let f ← data.fields? ["trace", "reason"]
    return .mismatchedEvidence (← f.required "trace" Json.string?)
      (← f.required "reason" Json.string?)
  | ("coverage_skipped", data) =>
    let f ← data.fields? ["reason"]
    return .coverageSkipped (← f.required "reason" Json.string?)
  | ("ambiguous_outcome", data) =>
    let f ← data.fields? ["check"]
    return .ambiguousOutcome (← f.required "check" CheckId.ofJson?)
  | _ => none

/-- How the outcome of folding is written as JSON. -/
def FoldOutcome.toJson : FoldOutcome → Json
  | .folded value => .object [("rewritten", .object [("value", .bool value)])]
  | .alreadyConstant => .string "already_constant"
  | .ambiguous => .string "ambiguous"

/-- Read the outcome of folding from JSON. -/
def FoldOutcome.ofJson? (medium : Json.Medium) (j : Json) : Option FoldOutcome := do
  match ← j.variant? with
  | ("rewritten", some data) =>
    let f ← Json.variantFields? ["value"] medium data
    return .folded (← f.required "value" Json.bool?)
  | ("already_constant", data) => (Json.noData? data).map fun _ => .alreadyConstant
  | ("ambiguous", data) => (Json.noData? data).map fun _ => .ambiguous
  | _ => none

/-- How an elimination is written as JSON. -/
def Elimination.toJson (e : Elimination) : Json :=
  .object [("check", e.check.toJson), ("by", e.reason.coverer.toJson),
    ("phase", e.reason.phase.toJson), ("count", .word e.reason.count),
    ("rewrite", e.outcome.toJson)]

/-- Read an elimination from JSON. -/
def Elimination.ofJson? (medium : Json.Medium) (j : Json) : Option Elimination := do
  let f ← j.fields? ["check", "by", "phase", "count", "rewrite"]
  return {
    check := ← f.required "check" CheckId.ofJson?
    reason := {
      coverer := ← f.required "by" CheckId.ofJson?
      phase := ← f.required "phase" Phase.ofJson?
      count := ← f.required "count" Json.word? }
    outcome := ← f.required "rewrite" (FoldOutcome.ofJson? medium) }

/-- The names of verdicts. -/
def Verdict.names : List (String × Verdict) :=
  [("redundant_with_user_check", .redundantWithUser),
    ("redundant_with_sanitizer_check", .redundantWithSanitizer), ("live", .live)]

/-- How a verdict is written as JSON. -/
def Verdict.toJson : Verdict → Json
  | .redundantWithUser => .string "redundant_with_user_check"
  | .redundantWithSanitizer => .string "redundant_with_sanitizer_check"
  | .live => .string "live"

/-- Read a verdict from JSON. -/
def Verdict.ofJson? : Json → Option Verdict := Json.choice? names

/-- How a range of shares is written as JSON. -/
def ShareRange.toJson (r : ShareRange) : Json :=
  .array [.number (.real r.start), .number (.real r.stop)]

/-- Read a range of shares from JSON. -/
def ShareRange.ofJson? (j : Json) : Option ShareRange := do
  let (start, stop) ← j.pair? Json.real?
  return { start, stop }

/-- How the place of a check is written as JSON. -/
def CheckDetail.toJson (d : CheckDetail) : Json :=
  .object [("id", d.id.toJson), ("cost", .word d.cost), ("total_cost", .word d.totalCost),
    ("total_checks", .word d.totalChecks), ("index_in_group", .word d.indexInGroup),
    ("group_size", .word d.groupSize), ("cost_range", d.costRange.toJson),
    ("rank_range", d.rankRange.toJson), ("verdict", d.verdict.toJson)]

/-- Read the place of a check from JSON. -/
def CheckDetail.ofJson? (j : Json) : Option CheckDetail := do
  let f ← j.fields? ["id", "cost", "total_cost", "total_checks", "index_in_group", "group_size",
    "cost_range", "rank_range", "verdict"]
  return {
    id := ← f.required "id" CheckId.ofJson?
    cost := ← f.required "cost" Json.word?
    totalCost := ← f.required "total_cost" Json.word?
    totalChecks := ← f.required "total_checks" Json.word?
    indexInGroup := ← f.required "index_in_group" Json.word?
    groupSize := ← f.required "group_size" Json.word?
    costRange := ← f.required "cost_range" ShareRange.ofJson?
    rankRange := ← f.required "rank_range" ShareRange.ofJson?
    verdict := ← f.required "verdict" Verdict.ofJson? }

/-- How a report is written as JSON. -/
def Report.toJson (r : Report) : Json :=
  .object <|
    [("unit", .string r.unit), ("num_user_checks", .word r.userChecks),
      ("num_checks", .word r.checks), ("after_phase1", .word r.afterPhase1),
      ("after_phase2", .word r.afterPhase2), ("after_phase3", .word r.afterPhase3),
      ("weight", .word r.weight), ("weight_after_phase1", .word r.weightAfterPhase1),
      ("weight_after_phase2", .word r.weightAfterPhase2),
      ("weight_after_phase3", .word r.weightAfterPhase3), ("total_cost", .word r.totalCost),
      ("total_cost_after", .word r.totalCostAfter), ("evidence", r.evidence.toJson),
      ("warnings", .ofList Warning.toJson r.warnings),
      ("eliminated", .ofList Elimination.toJson r.eliminated)] ++
    Json.optionalField "detail" CheckDetail.toJson r.detail

/-- Read a report from JSON. -/
def Report.ofJson? (medium : Json.Medium) (j : Json) : Option Report := do
  let f ← j.fields? ["unit", "num_user_checks", "num_checks", "after_phase1", "after_phase2",
    "after_phase3", "weight", "weight_after_phase1", "weight_after_phase2",
    "weight_after_phase3", "total_cost", "total_cost_after", "evidence", "warnings",
    "eliminated", "detail"]
  return {
    unit := ← f.required "unit" Json.string?
    userChecks := ← f.required "num_user_checks" Json.word?
    checks := ← f.required "num_checks" Json.word?
    afterPhase1 := ← f.required "after_phase1" Json.word?
    afterPhase2 := ← f.required "after_phase2" Json.word?
    afterPhase3 := ← f.required "after_phase3" Json.word?
    weight := ← f.required "weight" Json.word?
    weightAfterPhase1 := ← f.required "weight_after_phase1" Json.word?
    weightAfterPhase2 := ← f.required "weight_after_phase2" Json.word?
    weightAfterPhase3 := ← f.required "weight_after_phase3" Json.word?
    totalCost := ← f.required "total_cost" Json.word?
    totalCostAfter := ← f.required "total_cost_after" Json.word?
    evidence := ← f.required "evidence" EvidenceMode.ofJson?
    warnings := ← f.required "warnings" (Json.list? Warning.ofJson?)
    eliminated := ← f.required "eliminated" (Json.list? (Elimination.ofJson? medium))
    detail := ← f.optional "detail" CheckDetail.ofJson? }

end GuardElision
