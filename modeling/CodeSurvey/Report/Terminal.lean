import CodeSurvey.Decimal.Shortest
import CodeSurvey.Report.Hotspot
import CodeSurvey.Report.Table
import CodeSurvey.Repository.Survey

/-!
# Reports for a terminal

The text that is shown to a person: totals, architecture, hotspots, endpoints
and the files that were skipped. A part without content is left out. Colours
are escape sequences around parts of a line, and change nothing else.
-/

namespace CodeSurvey

/-- How a part of a line is shown. -/
inductive TextStyle where
  | bold
  | red
  | green
  | yellow
  | cyan
  | boldCyan
  deriving DecidableEq, Repr

namespace TextStyle

/-- The numbers of an escape sequence that begins the style. -/
def codes : TextStyle → String
  | bold => "1"
  | red => "31"
  | green => "32"
  | yellow => "33"
  | cyan => "36"
  | boldCyan => "1;36"

/-- A text in a style, if there are colours. -/
def apply (style : TextStyle) (colour : Bool) (s : String) : String :=
  if colour then "\x1b[" ++ style.codes ++ "m" ++ s ++ "\x1b[0m" else s

end TextStyle

namespace TerminalReport

def hotspotLimit : Nat := 5

/-- A line of one character in front of which a title stands. -/
def thinLine : String := String.ofList (List.replicate 43 '─')

def thickLine : String := String.ofList (List.replicate 43 '═')

/-- A text that is filled with blanks up to a width. -/
def padded (width : Nat) (s : String) : String :=
  s ++ String.ofList (List.replicate (width - s.length) ' ')

def headerLines (colour : Bool) : List String :=
  ["", TextStyle.cyan.apply colour thickLine,
    TextStyle.boldCyan.apply colour "           REPOSITORY ANALYSIS",
    TextStyle.cyan.apply colour thickLine, ""]

/-- Whether a number is less than a natural number. -/
def isBelow (x : Double) (n : Nat) : Bool :=
  let (num, den) := x.ratio
  x.negative || num < n * den

/-- The average with one place; what its colour means is decided before it is
rounded. -/
def averageText (colour : Bool) (average : Double) : String :=
  let style : TextStyle :=
    if isBelow average 5 then .green else if isBelow average 10 then .yellow else .red
  style.apply colour (average.fixed 1)

def summaryLines (colour : Bool) (m : Metrics) : List String :=
  ["📊 " ++ TextStyle.bold.apply colour "CODEBASE" ++ " Summary",
    thinLine,
    "  Files analyzed:      " ++ toString m.totalFiles,
    "  Total lines:         " ++ toString m.totalLines,
    "  Total functions:     " ++ toString m.totalFunctions,
    "  Total classes:       " ++ toString m.totalClasses,
    "  Components:          " ++ toString m.totalComponents,
    "  API endpoints:       " ++ toString m.totalApiEndpoints,
    "  Average complexity:  " ++ averageText colour m.averageComplexity,
    ""]

def architectureLines (colour : Bool) (a : Architecture) (technologies : List String) :
    List String :=
  if a.kind = "" then []
  else
    let optional := [
      ("Database:", a.database), ("Auth:", a.authentication), ("Styling:", a.styling),
      ("Testing:", a.testing)]
    ["🏗  " ++ TextStyle.bold.apply colour "ARCHITECTURE",
      thinLine,
      "  Kind:        " ++ a.kind,
      "  Framework:   " ++ a.framework,
      "  Language:    " ++ a.language]
    ++ (optional.filterMap fun (label, value) => value.map fun v => "  " ++ padded 12 label ++ " " ++ v)
    ++ (if technologies.isEmpty then [] else ["  Stack:       " ++ ", ".intercalate technologies])
    ++ [""]

def hotspotLines (colour : Bool) (files : List ParsedFile) : List String :=
  match Hotspot.top hotspotLimit files with
  | [] => []
  | hotspots =>
    let table : Table := {
      header := ["Function", "File", "Lines", "Complexity"]
      rows := hotspots.map fun h =>
        [h.function.name, h.path,
          toString h.function.lineStart ++ "-" ++ toString h.function.lineEnd,
          toString h.function.complexity] }
    ["⚠️  " ++ TextStyle.bold.apply colour "COMPLEXITY HOTSPOTS"
        ++ " (Top " ++ toString hotspotLimit ++ ")"]
      ++ table.lines .full ++ [""]

def endpointLines (colour : Bool) (endpoints : List ApiEndpointRecord) : List String :=
  if endpoints.isEmpty then []
  else
    let table : Table := {
      header := ["Method", "Route", "File", "Line"]
      rows := endpoints.map fun e =>
        [e.httpMethod.word, e.routePath, e.sourceFile, toString e.lineNumber] }
    ["🌐 " ++ TextStyle.bold.apply colour "API ENDPOINTS"] ++ table.lines .full ++ [""]

def skippedLines (colour : Bool) (skipped : List SkippedFile) : List String :=
  if skipped.isEmpty then []
  else
    (TextStyle.yellow.apply colour "note:" ++ " " ++ toString skipped.length ++ " file(s) skipped")
    :: skipped.map fun s =>
      match s.detail with
      | some detail => "  " ++ s.path ++ " (" ++ detail ++ ")"
      | none => "  " ++ s.path

def lines (colour : Bool) (r : AnalysisResult) : List String :=
  headerLines colour ++ summaryLines colour r.metrics
    ++ architectureLines colour r.architecture r.technologies
    ++ hotspotLines colour r.sourceFiles ++ endpointLines colour r.apiEndpoints
    ++ skippedLines colour r.skippedFiles

end TerminalReport

end CodeSurvey
