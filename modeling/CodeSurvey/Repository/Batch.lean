import CodeSurvey.Record.File

/-!
# Batches of files

The analysis of many files. A file that has no record is listed with the
reason, and never stops the others. Whoever watches a batch is told a count
after every file that was finished, and may then ask it to stop: files that
have not begun are left out, all that is finished is kept.

A batch is handed out in chunks if it is larger than one. Within a chunk the
files are independent, so `Batch` works through them in their order.
-/

namespace CodeSurvey

inductive SkipReason where
  | unsupportedLanguage
  | tooLarge
  | parseFailure
  /-- The parser was stopped. Reports that are read can have this reason; a batch never
  comes to it, because time is left out. -/
  | timeout
  deriving DecidableEq, Repr

/-- A file without a record. -/
structure SkippedFile where
  path : String
  reason : SkipReason
  detail : Option String
  deriving DecidableEq, Repr

namespace FileFailure

def skipReason : FileFailure → SkipReason
  | unsupportedLanguage => .unsupportedLanguage
  | tooLarge _ _ => .tooLarge
  | malformed _ _ => .parseFailure

/-- The details of a failure. That a language is not supported says it all. -/
def detail? : FileFailure → Option String
  | unsupportedLanguage => none
  | e => some e.message

end FileFailure

/-- What became of a file that was finished. -/
abbrev FileOutcome := Except SkippedFile ParsedFile

namespace SourceFile

def outcome (c : ParserConfig) (f : SourceFile) : FileOutcome :=
  match f.analyze c with
  | .ok record => .ok record
  | .error e => .error ⟨f.path, e.skipReason, e.detail?⟩

end SourceFile

/-- Records of a batch, each kind in the order of the files. -/
structure BatchResult where
  parsed : List ParsedFile
  skipped : List SkippedFile
  /-- Whether a file was left out. -/
  interrupted : Bool
  deriving DecidableEq, Repr

namespace BatchResult

/-- What the files of a batch came to, one entry per file and nothing for a file
that was left out. -/
def ofOutcomes (outcomes : List (Option FileOutcome)) : BatchResult where
  parsed := outcomes.filterMap fun
    | some (.ok record) => some record
    | _ => none
  skipped := outcomes.filterMap fun
    | some (.error skipped) => some skipped
    | _ => none
  interrupted := outcomes.any (·.isNone)

end BatchResult

/-- A batch at work. -/
structure Batch where
  /-- Whether it has been asked to stop. -/
  stopped : Bool
  /-- The counts that were told, in their order. -/
  counts : List Nat
  /-- One entry per file so far; nothing for a file that was left out. -/
  outcomes : List (Option FileOutcome)

namespace Batch

def start (stopped : Bool) : Batch := ⟨stopped, [], []⟩

/-- Take the next file. `stopAt` says at which counts the batch is asked to
stop. -/
def step (c : ParserConfig) (stopAt : Nat → Bool) (b : Batch) (f : SourceFile) : Batch :=
  if b.stopped then { b with outcomes := b.outcomes ++ [none] }
  else
    let done := b.counts.length + 1
    ⟨stopAt done, b.counts ++ [done], b.outcomes ++ [some (f.outcome c)]⟩

def steps (c : ParserConfig) (stopAt : Nat → Bool) (b : Batch) (files : List SourceFile) : Batch :=
  files.foldl (step c stopAt) b

def result (b : Batch) : BatchResult := .ofOutcomes b.outcomes

end Batch

/-- The parts of a list of a size, of which the last one may be shorter. -/
def chunksOf {α : Type} (size : Nat) (items : List α) : List (List α) :=
  if _h : size = 0 ∨ items = [] then []
  else items.take size :: chunksOf size (items.drop size)
termination_by items.length
decreasing_by
  have : items.length ≠ 0 := fun e => _h (.inr (List.length_eq_zero_iff.mp e))
  rw [List.length_drop]
  omega

/-- Work through a batch: in one go if it is small or nothing runs in parallel,
else chunk by chunk. -/
def runBatch (c : ParserConfig) (p : ParallelConfig) (stopped : Bool) (stopAt : Nat → Bool)
    (files : List SourceFile) : Batch :=
  let start := Batch.start stopped
  if !p.enabled || files.length ≤ 1 then start.steps c stopAt files
  else if files.length ≤ p.effectiveBatchSize then start.steps c stopAt files
  else (chunksOf p.effectiveBatchSize files).foldl (fun b chunk => b.steps c stopAt chunk) start

end CodeSurvey
