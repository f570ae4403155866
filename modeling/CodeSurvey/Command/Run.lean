import CodeSurvey.Command.Argument
import CodeSurvey.Directory.Load
import CodeSurvey.Directory.Walk

/-!
# Running a command

A command as a function: from the words of a command line and a file tree to
what is printed, what is written and whether it worked. A survey fails if its
configuration, its directory, the ignore files around that, its manifest or its
output cannot be used, and then prints nothing. What is printed, or written to a file
that could be created, arrives.
-/

namespace CodeSurvey

/-- Why a survey cannot be made. -/
inductive SurveyFailure where
  | config (path : String) (e : ConfigFileFailure)
  | walk (path : String) (e : WalkFailure)
  | manifest (e : ManifestFileFailure)
  | output (path : String)
  deriving DecidableEq, Repr

namespace SurveyFailure

def message : SurveyFailure → String
  | config path e => e.message path
  | walk path e => "Failed to collect files under " ++ path ++ ": " ++ e.message
  | manifest e => e.message
  | output path => "Failed to create " ++ path

end SurveyFailure

namespace SurveyRequest

/-- The configuration with what the command line says instead. A zero says
nothing. -/
def override (q : SurveyRequest) (c : Config) : Config :=
  let parallel := { c.parallel with
    enabled := c.parallel.enabled && !q.noParallel
    maxConcurrency := (q.jobs.filter (0 < ·)) <|> c.parallel.maxConcurrency }
  let walker := { c.walker with maxFiles := (q.maxFiles.filter (0 < ·)).getD c.walker.maxFiles }
  { c with parallel := parallel, walker := walker }

/-- The configuration of a request: the file that it names, or the nearest one. -/
def loadConfig (q : SurveyRequest) (t : FileTree) : Except SurveyFailure Config :=
  match q.config with
  | none => .ok (t.discoverConfig q.path)
  | some path =>
    match t.loadConfig path with
    | .ok c => .ok c
    | .error e => .error (.config path e)

/-- The survey that a request asks for. -/
def survey (q : SurveyRequest) (t : FileTree) : Except SurveyFailure AnalysisResult := do
  let c := q.override (← q.loadConfig t)
  let files ← (t.collect c.walker c.parser.maxFileBytes q.path).mapError (.walk q.path)
  let manifest ← (t.loadManifest q.path).mapError .manifest
  return surveyRepository c manifest false files

end SurveyRequest

/-- What a command did. -/
structure Outcome where
  exitCode : Nat
  printed : String
  /-- What is said about a failure. -/
  complaint : String
  /-- The file that was written, with its text. -/
  written : Option (String × String)

namespace Outcome

def succeeded (printed : String) : Outcome := ⟨0, printed, "", none⟩

def failed (e : SurveyFailure) : Outcome := ⟨1, "", "Error: " ++ e.message ++ "\n", none⟩

/-- The file tree after a command. -/
def treeAfter (o : Outcome) (t : FileTree) : FileTree :=
  match o.written with
  | some (path, text) => (t.write? path text).getD t
  | none => t

end Outcome

namespace Command

def programName : String := "repodoc"

def version : String := "0.1.0"

def usage : String :=
  "Structural analyzer for JavaScript/TypeScript repositories\n\n"
    ++ "Usage: " ++ programName ++ " analyze [OPTIONS] <PATH>\n\n"
    ++ "Options:\n"
    ++ "  -f, --format <FORMAT>        Output format: json or terminal\n"
    ++ "  -o, --output <OUTPUT>        Output file (defaults to stdout)\n"
    ++ "  -c, --config <CONFIG>        Configuration file\n"
    ++ "  -j, --jobs <JOBS>            Number of parallel jobs\n"
    ++ "      --no-parallel            Analyze files one at a time\n"
    ++ "      --max-files <MAX_FILES>  Maximum number of files to collect\n"
    ++ "  -v, --verbose                Increase log verbosity\n"
    ++ "  -h, --help                   Print help\n"

/-- What a command line that asks for no survey leads to. -/
def answerFault : ArgumentFault → Outcome
  | .helpWanted => .succeeded usage
  | .versionWanted => .succeeded (programName ++ " " ++ version ++ "\n")
  | _ => ⟨2, "", usage, none⟩

/-- Carry out a request. -/
def carryOut (q : SurveyRequest) (t : FileTree) : Outcome :=
  match q.survey t with
  | .error e => .failed e
  | .ok result =>
    let text := result.render q.format false
    match q.output with
    | none => .succeeded text
    | some path =>
      match t.write? path text with
      | some _ => ⟨0, "", "", some (path, text)⟩
      | none => .failed (.output path)

/-- Run a command, from the words behind the name of the program. -/
def run (words : List String) (t : FileTree) : Outcome :=
  match CommandLine.parse words with
  | .error fault => answerFault fault
  | .ok q => carryOut q t

end Command

end CodeSurvey
