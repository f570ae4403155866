import CodeSurvey.Json.Printer
import CodeSurvey.Report.Terminal
import CodeSurvey.Repository.Wire

/-!
# Forms of a report

A survey is written as JSON for programs or as a text for a terminal. Both end
with a line break.
-/

namespace CodeSurvey

inductive ReportFormat where
  | json
  | terminal
  deriving DecidableEq, Repr

namespace AnalysisResult

/-- The text of a report. Only a text for a terminal has colours. -/
def render (format : ReportFormat) (colour : Bool) (r : AnalysisResult) : String :=
  match format with
  | .json => r.toJson.pretty ++ "\n"
  | .terminal => String.join ((TerminalReport.lines colour r).map (· ++ "\n"))

end AnalysisResult

end CodeSurvey
