import CodeSurvey.Report.Format

/-!
# Command line

What the words of a command line ask for. Words are read from left to right,
and the first one that is wrong decides the fault. A word that gives an option
its value is only looked at when the next option, the next plain word or the end
is reached, so that an unknown option is noticed before a bad value in front of
it.
-/

namespace CodeSurvey

/-- What is wrong with a command line, or why it asks for nothing but a text. -/
inductive ArgumentFault where
  | helpWanted
  | versionWanted
  /-- No word at all. -/
  | helpNeeded
  | invalidSubcommand
  | unknownArgument
  | missingArgument
  /-- A value is missing, empty or not among the possible ones. -/
  | invalidValue
  /-- A value is no number that fits. -/
  | invalidNumber
  /-- An option that takes no value has one. -/
  | unexpectedValue
  /-- An option is given twice. -/
  | repeated
  deriving DecidableEq, Repr

/-- What a survey is asked for. -/
structure SurveyRequest where
  path : String
  format : ReportFormat
  output : Option String
  config : Option String
  jobs : Option Nat
  noParallel : Bool
  maxFiles : Option Nat
  verbosity : Nat
  deriving DecidableEq, Repr

namespace CommandLine

/-- The options that take a value. -/
inductive ValueOption where
  | format
  | output
  | config
  | jobs
  | maxFiles
  deriving DecidableEq, Repr

/-- All options of a survey. -/
inductive SurveyOption where
  | value (o : ValueOption)
  | noParallel
  | verbose
  | help
  deriving DecidableEq, Repr

namespace SurveyOption

def ofLong? (name : String) : Option SurveyOption :=
  [("format", value .format), ("output", value .output), ("config", value .config),
    ("jobs", value .jobs), ("max-files", value .maxFiles), ("no-parallel", noParallel),
    ("verbose", verbose), ("help", help)].lookup name

def ofShort? (c : Char) : Option SurveyOption :=
  [('f', value .format), ('o', value .output), ('c', value .config), ('j', value .jobs),
    ('v', verbose), ('h', help)].lookup c

end SurveyOption

/-! ## Values -/

/-- The largest number that an option takes. -/
def maxNumber : Nat := 18446744073709551615

/-- The number that decimal digits stand for, with or without a plus in front. -/
def number? (s : String) : Option Nat :=
  let digits := match s.toList with
    | '+' :: cs => cs
    | cs => cs
  if digits.isEmpty || !digits.all Char.isDigit then none
  else
    let n := digits.foldl (fun n c => n * 10 + (c.toNat - '0'.toNat)) 0
    if n ≤ maxNumber then some n else none

def format? : String → Option ReportFormat
  | "json" => some .json
  | "terminal" => some .terminal
  | _ => none

/-- What has been read of the words of a survey. -/
structure Reading where
  path : Option String
  format : Option ReportFormat
  output : Option String
  config : Option String
  jobs : Option Nat
  maxFiles : Option Nat
  noParallel : Bool
  verbosity : Nat

/-- A word that has not been looked at. -/
inductive Pending where
  | nothing
  /-- An option that waits for its value. -/
  | awaited (o : ValueOption)
  | value (o : ValueOption) (word : String)
  | path (word : String)

namespace Reading

def empty : Reading := ⟨none, none, none, none, none, none, false, 0⟩

def hasValue (o : ValueOption) (r : Reading) : Bool :=
  match o with
  | .format => r.format.isSome
  | .output => r.output.isSome
  | .config => r.config.isSome
  | .jobs => r.jobs.isSome
  | .maxFiles => r.maxFiles.isSome

/-- A word that is the path of a file. -/
def pathOf (word : String) : Except ArgumentFault String :=
  if word = "" then .error .invalidValue else .ok word

/-- A word that is a number. -/
def numberOf (word : String) : Except ArgumentFault Nat :=
  match number? word with
  | some n => .ok n
  | none => .error .invalidNumber

/-- Give an option its value. -/
def setValue (o : ValueOption) (word : String) (r : Reading) : Except ArgumentFault Reading :=
  if r.hasValue o then .error .repeated
  else
    match o with
    | .format =>
      match format? word with
      | some f => .ok { r with format := some f }
      | none => .error .invalidValue
    | .output => (pathOf word).map fun p => { r with output := some p }
    | .config => (pathOf word).map fun p => { r with config := some p }
    | .jobs => (numberOf word).map fun n => { r with jobs := some n }
    | .maxFiles => (numberOf word).map fun n => { r with maxFiles := some n }

/-- Look at the word that was left. -/
def settle (p : Pending) (r : Reading) : Except ArgumentFault Reading :=
  match p with
  | .nothing => .ok r
  | .awaited _ => .error .invalidValue
  | .value o word => r.setValue o word
  | .path word => (pathOf word).map fun p => { r with path := some p }

/-- The largest count of repetitions that is told apart. -/
def maxVerbosity : Nat := 255

/-- An option without a value. -/
def setFlag (o : SurveyOption) (r : Reading) : Except ArgumentFault Reading :=
  match o with
  | .value _ => .error .invalidValue
  | .noParallel => if r.noParallel then .error .repeated else .ok { r with noParallel := true }
  | .verbose => .ok { r with verbosity := min (r.verbosity + 1) maxVerbosity }
  | .help => .error .helpWanted

/-- The request, if nothing is missing. -/
def finish (r : Reading) : Except ArgumentFault SurveyRequest :=
  match r.path with
  | none => .error .missingArgument
  | some path => .ok {
      path := path
      format := r.format.getD .terminal
      output := r.output
      config := r.config
      jobs := r.jobs
      noParallel := r.noParallel
      maxFiles := r.maxFiles
      verbosity := r.verbosity }

end Reading

/-! ## Words -/

/-- The name of a long option and the value behind an equals sign. -/
def splitLong (cs : List Char) : String × Option String :=
  let name := cs.takeWhile (· != '=')
  match cs.drop name.length with
  | _ :: value => (String.ofList name, some (String.ofList value))
  | [] => (String.ofList name, none)

/-- Read a long option from behind its dashes. -/
def longOption (cs : List Char) (p : Pending) (r : Reading) :
    Except ArgumentFault (Pending × Reading) := do
  let (name, value?) := splitLong cs
  match SurveyOption.ofLong? name, value? with
  | none, _ => throw .unknownArgument
  | some (.value o), some value => return (.nothing, ← (← r.settle p).setValue o value)
  | some (.value o), none => return (.awaited o, ← r.settle p)
  | some _, some _ => throw .unexpectedValue
  | some o, none => return (.nothing, ← (← r.settle p).setFlag o)

/-- Read short options from behind their dash. One that takes a value takes the
rest of the word, if there is a rest. -/
def shortOptions (p : Pending) (r : Reading) :
    List Char → Except ArgumentFault (Pending × Reading)
  | [] => .ok (p, r)
  | c :: cs =>
    match SurveyOption.ofShort? c with
    | none => .error .unknownArgument
    | some (.value o) => do
      let r ← r.settle p
      match cs with
      | [] => return (.awaited o, r)
      | '=' :: value => return (.nothing, ← r.setValue o (String.ofList value))
      | value => return (.nothing, ← r.setValue o (String.ofList value))
    | some o => do
      let r ← (← r.settle p).setFlag o
      shortOptions .nothing r cs

/-- Read a plain word, of which there can be one: the path. -/
def plainWord (word : String) (hasPath : Bool) (p : Pending) (r : Reading) :
    Except ArgumentFault (Pending × Reading) := do
  if hasPath then throw .unknownArgument
  return (.path word, ← r.settle p)

/-- Read the words of a survey. Behind two dashes all words are plain. -/
def surveyWords (onlyPlain hasPath : Bool) (p : Pending) (r : Reading) :
    List String → Except ArgumentFault SurveyRequest
  | [] => do (← r.settle p).finish
  | word :: words =>
    let plain : Except ArgumentFault SurveyRequest := do
      let (p, r) ← plainWord word hasPath p r
      surveyWords onlyPlain true p r words
    if onlyPlain then plain
    else
      match word.toList with
      | ['-', '-'] => surveyWords true hasPath p r words
      | '-' :: '-' :: cs => do
        let (p, r) ← longOption cs p r
        surveyWords false hasPath p r words
      | '-' :: c :: cs => do
        let (p, r) ← shortOptions p r (c :: cs)
        surveyWords false hasPath p r words
      | _ =>
        match p with
        | .awaited o => surveyWords false hasPath (.value o word) r words
        | _ => plain

/-- The subcommand that surveys a repository. -/
def surveyCommand : String := "analyze"

def helpCommand : String := "help"

/-- Read the words behind the subcommand that asks for help. -/
def helpWords : List String → ArgumentFault
  | [] => .helpWanted
  | [word] =>
    if word = surveyCommand ∨ word = helpCommand then .helpWanted else .invalidSubcommand
  | _ => .invalidSubcommand

/-- Read an option in front of the subcommand. -/
def globalOption (word : String) : ArgumentFault :=
  match word.toList with
  | '-' :: '-' :: cs =>
    let (name, value?) := splitLong cs
    if name = "help" then (if value?.isSome then .unexpectedValue else .helpWanted)
    else if name = "version" then (if value?.isSome then .unexpectedValue else .versionWanted)
    else .unknownArgument
  | '-' :: 'h' :: _ => .helpWanted
  | '-' :: 'V' :: _ => .versionWanted
  | '-' :: _ :: _ => .unknownArgument
  | _ => .invalidSubcommand

/-- Read the words behind the name of the program. -/
def parse : List String → Except ArgumentFault SurveyRequest
  | [] => .error .helpNeeded
  | word :: words =>
    if word = surveyCommand then surveyWords false false .nothing .empty words
    else if word = helpCommand then .error (helpWords words)
    else if word = "--" then
      match words with
      | [] => .error .helpNeeded
      | next :: _ =>
        if next = surveyCommand ∨ next = helpCommand then .error .unknownArgument
        else .error .invalidSubcommand
    else .error (globalOption word)

end CommandLine

end CodeSurvey
