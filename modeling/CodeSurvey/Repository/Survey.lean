import CodeSurvey.Component
import CodeSurvey.Decimal.Double
import CodeSurvey.Endpoint.Detection
import CodeSurvey.Repository.Architecture
import CodeSurvey.Repository.Batch
import CodeSurvey.Repository.Dependency

/-!
# The survey of a repository

All that is known of a repository in one value: its files, what was found in
them, the dependencies it declares, and totals over all of it.
-/

namespace CodeSurvey

structure Metrics where
  /-- The files that have a record. -/
  totalFiles : Nat
  totalFunctions : Nat
  totalClasses : Nat
  totalComponents : Nat
  totalApiEndpoints : Nat
  totalLines : Nat
  averageComplexity : Double
  /-- The number of files per language, with or without a record; in the order of
  the languages, and only of those that occur. -/
  languageBreakdown : List (Language × Nat)
  deriving DecidableEq, Repr

structure AnalysisResult where
  metrics : Metrics
  dependencies : DependencySummary
  /-- Sorted, each once. -/
  technologies : List String
  architecture : Architecture
  apiEndpoints : List ApiEndpointRecord
  components : List ComponentRecord
  sourceFiles : List ParsedFile
  skippedFiles : List SkippedFile
  deriving DecidableEq, Repr

/-- The complexity per file; no files count as one. Both numbers are rounded
before they are divided. -/
def averageComplexity (total files : Nat) : Double :=
  let quotient? := do (← Double.ofNat? total).div? (← Double.ofNat? (max files 1))
  quotient?.getD .zero

/-- How often each language occurs. -/
def countLanguages (languages : List Language) : List (Language × Nat) :=
  (Language.all.map fun l => (l, languages.count l)).filter fun (_, n) => n ≠ 0

namespace Metrics

def ofFiles (files : List ParsedFile) (skipped : List SkippedFile) (components endpoints : Nat) :
    Metrics where
  totalFiles := files.length
  totalFunctions := totalOf (·.functions.length) files
  totalClasses := totalOf (·.classes.length) files
  totalComponents := components
  totalApiEndpoints := endpoints
  totalLines := totalOf (·.linesOfCode) files
  averageComplexity := CodeSurvey.averageComplexity (totalOf (·.totalComplexity) files) files.length
  languageBreakdown :=
    countLanguages (files.map (·.language) ++ skipped.map fun s => Language.classify s.path)

end Metrics

namespace AnalysisResult

/-- Put the parts of a survey together. Without a manifest nothing is declared. -/
def ofParts (p : Patterns) (files : List ParsedFile) (skipped : List SkippedFile)
    (manifest : Option Manifest) (components : List ComponentRecord)
    (endpoints : List ApiEndpointRecord) : AnalysisResult :=
  let m := manifest.getD .empty
  let labels := detectTechnologies p m files
  { metrics := Metrics.ofFiles files skipped components.length endpoints.length
    dependencies := m.summary p
    technologies := labels
    architecture := .ofManifest m labels
    apiEndpoints := endpoints
    components := components
    sourceFiles := files
    skippedFiles := skipped }

/-- The survey of what a batch came to. -/
def ofBatch (c : Config) (manifest : Option Manifest) (b : BatchResult) : AnalysisResult :=
  .ofParts c.patterns b.parsed b.skipped manifest
    (detectComponents c.components b.parsed) (detectEndpoints c.routes b.parsed)

end AnalysisResult

/-- Survey a repository. If it is `stopped`, no file is looked at. -/
def surveyRepository (c : Config) (manifest : Option Manifest) (stopped : Bool)
    (files : List SourceFile) : AnalysisResult :=
  .ofBatch c manifest (runBatch c.parser c.parallel stopped (fun _ => false) files).result

end CodeSurvey
