import GuardElision.Decimal.Layout
import GuardElision.Exchange.Report
import GuardElision.Json.Printer
import GuardElision.Settings.Basic

/-!
# Writing reports

As text, a report is a summary line, a line for the inspected check and a line for each
warning. As JSON lines, it is one line. Shares are written with four places.
-/

namespace GuardElision

/-- The text of a verdict. -/
def Verdict.text : Verdict → String
  | .redundantWithUser => "redundant with user checks"
  | .redundantWithSanitizer => "redundant with sanitizer checks"
  | .live => "live"

/-- A range of shares with four places. -/
def ShareRange.text (r : ShareRange) : String :=
  "[" ++ Decimal.fixed 4 r.start ++ ", " ++ Decimal.fixed 4 r.stop ++ "]"

namespace Report

/-- The program's name and the counts that matter most. -/
def summary (r : Report) : String :=
  let counts := [r.checks, r.afterPhase1, r.afterPhase3, r.weight, r.weightAfterPhase1,
    r.weightAfterPhase3, r.totalCost, r.totalCostAfter]
  " ".intercalate (r.unit :: counts.map fun n => toString n.toNat)

/-- The line on the inspected check. -/
def inspectLine (r : Report) (d : CheckDetail) : String :=
  let number (n : UInt64) := toString n.toNat
  r.unit ++ " inspect " ++ d.id.display ++ " cost " ++ number d.cost ++ "/" ++
    number d.totalCost ++ " checks " ++ number d.totalChecks ++ " group " ++
    number d.indexInGroup ++ "/" ++ number d.groupSize ++ " cost_range " ++ d.costRange.text ++
    " rank_range " ++ d.rankRange.text ++ " " ++ d.verdict.text

/-- The line of a warning. -/
def warningLine (r : Report) (w : Warning) : String := r.unit ++ " warning " ++ w.message

/-- The lines of a report. -/
def lines (r : Report) : ReportFormat → List String
  | .text => r.summary :: (r.detail.toList.map r.inspectLine ++ r.warnings.map r.warningLine)
  | .jsonLines => [r.toJson.render]

/-- A report as it is written. -/
def render (r : Report) (format : ReportFormat) : String :=
  String.join ((r.lines format).map (· ++ "\n"))

end Report

end GuardElision
