import CodeSurvey.Record.Wire
import CodeSurvey.Repository.Survey

/-!
# Surveys as JSON

The records of a repository as objects, as for those of a file. Names of
dependencies are keys, so their sections come back sorted; sets are lists that
come back sorted and without repetitions.
-/

namespace CodeSurvey

namespace ComponentKind

def word : ComponentKind → String
  | functional => "functional"
  | classBased => "class"

def ofJson? (v : Json) : Option ComponentKind :=
  v.string?.bind fun s => [functional, classBased].find? (·.word == s)

end ComponentKind

namespace ComponentRole

def word : ComponentRole → String
  | page => "page"
  | layout => "layout"
  | component => "component"

def ofJson? (v : Json) : Option ComponentRole :=
  v.string?.bind fun s => [page, layout, component].find? (·.word == s)

end ComponentRole

namespace ComponentRecord

def toJson (c : ComponentRecord) : Json :=
  .object [
    ("name", .string c.name), ("kind", .string c.kind.word), ("role", .string c.role.word),
    ("file", .string c.file)]

def ofJson? (v : Json) : Option ComponentRecord := do
  return {
    name := ← v.required "name" Json.string?
    kind := ← v.required "kind" ComponentKind.ofJson?
    role := ← v.required "role" ComponentRole.ofJson?
    file := ← v.required "file" Json.string? }

end ComponentRecord

namespace ApiEndpointRecord

def toJson (e : ApiEndpointRecord) : Json :=
  .object [
    ("httpMethod", .string e.httpMethod.word), ("routePath", .string e.routePath),
    ("sourceFile", .string e.sourceFile), ("lineNumber", .natural e.lineNumber)]

def ofJson? (v : Json) : Option ApiEndpointRecord := do
  return {
    httpMethod := ← v.required "httpMethod" fun w => w.string?.bind HttpMethod.ofWord?
    routePath := ← v.required "routePath" Json.string?
    sourceFile := ← v.required "sourceFile" Json.string?
    lineNumber := ← v.required "lineNumber" Json.count? }

end ApiEndpointRecord

namespace SkipReason

def word : SkipReason → String
  | unsupportedLanguage => "unsupportedLanguage"
  | tooLarge => "tooLarge"
  | parseFailure => "parseFailure"
  | timeout => "timeout"

def ofJson? (v : Json) : Option SkipReason :=
  v.string?.bind fun s =>
    [unsupportedLanguage, tooLarge, parseFailure, timeout].find? (·.word == s)

end SkipReason

namespace SkippedFile

def toJson (s : SkippedFile) : Json :=
  .fieldsOf [
    ("path", some (.string s.path)),
    ("reason", some (.string s.reason.word)),
    ("detail", s.detail.map .string)]

def ofJson? (v : Json) : Option SkippedFile := do
  return {
    path := ← v.required "path" Json.string?
    reason := ← v.required "reason" SkipReason.ofJson?
    detail := ← v.optional "detail" Json.string? }

end SkippedFile

namespace Manifest

/-- A section, with the names as keys. -/
def sectionJson (pairs : List (String × String)) : Json :=
  .object (pairs.map fun (name, version) => (name, .string version))

def toJson (m : Manifest) : Json :=
  .object [
    ("production", sectionJson m.production), ("development", sectionJson m.development)]

def ofJson? (v : Json) : Option Manifest := do
  return {
    production := ← v.required "production" (Json.map? Json.string?)
    development := ← v.required "development" (Json.map? Json.string?) }

end Manifest

/-- Read a list of texts as a sorted set. -/
def Json.textSet? (v : Json) : Option (List String) :=
  (Json.list? Json.string? v).map sortedSet

namespace Categories

def fields (c : Categories) : List (String × Json) :=
  [("frameworks", .strings c.frameworks), ("uiLibraries", .strings c.uiLibraries),
    ("databases", .strings c.databases)]

def toJson (c : Categories) : Json := .object c.fields

def ofJson? (v : Json) : Option Categories := do
  return {
    frameworks := ← v.required "frameworks" Json.textSet?
    uiLibraries := ← v.required "uiLibraries" Json.textSet?
    databases := ← v.required "databases" Json.textSet? }

end Categories

namespace DependencySummary

/-- The fields of the categories stand among the others. -/
def toJson (d : DependencySummary) : Json :=
  .object ([
    ("production", Manifest.sectionJson d.production),
    ("development", Manifest.sectionJson d.development),
    ("all", .strings d.all),
    ("totalCount", .natural d.totalCount)] ++ d.categories.fields)

def ofJson? (v : Json) : Option DependencySummary := do
  return {
    production := ← v.required "production" (Json.map? Json.string?)
    development := ← v.required "development" (Json.map? Json.string?)
    all := ← v.required "all" (Json.list? Json.string?)
    totalCount := ← v.required "totalCount" Json.count?
    categories := ← Categories.ofJson? v }

end DependencySummary

namespace Architecture

def toJson (a : Architecture) : Json :=
  .fieldsOf [
    ("kind", some (.string a.kind)),
    ("framework", some (.string a.framework)),
    ("language", some (.string a.language)),
    ("database", a.database.map .string),
    ("authentication", a.authentication.map .string),
    ("styling", a.styling.map .string),
    ("testing", a.testing.map .string)]

def ofJson? (v : Json) : Option Architecture := do
  return {
    kind := ← v.required "kind" Json.string?
    framework := ← v.required "framework" Json.string?
    language := ← v.required "language" Json.string?
    database := ← v.optional "database" Json.string?
    authentication := ← v.optional "authentication" Json.string?
    styling := ← v.optional "styling" Json.string?
    testing := ← v.optional "testing" Json.string? }

end Architecture

namespace Metrics

/-- The counts of languages, in the order of the languages. -/
def breakdownOfJson? (v : Json) : Option (List (Language × Nat)) := do
  let pairs ← Json.map? Json.count? v
  let counts ← pairs.mapM fun (word, n) => (Language.ofWord? word).map (·, n)
  return Language.all.filterMap fun l => (counts.lookup l).map (l, ·)

def toJson (m : Metrics) : Json :=
  .object [
    ("totalFiles", .natural m.totalFiles),
    ("totalFunctions", .natural m.totalFunctions),
    ("totalClasses", .natural m.totalClasses),
    ("totalComponents", .natural m.totalComponents),
    ("totalAPIEndpoints", .natural m.totalApiEndpoints),
    ("totalLines", .natural m.totalLines),
    ("averageComplexity", .fraction m.averageComplexity),
    ("languageBreakdown", .object (m.languageBreakdown.map fun (l, n) => (l.word, .natural n)))]

def ofJson? (v : Json) : Option Metrics := do
  return {
    totalFiles := ← v.required "totalFiles" Json.count?
    totalFunctions := ← v.required "totalFunctions" Json.count?
    totalClasses := ← v.required "totalClasses" Json.count?
    totalComponents := ← v.required "totalComponents" Json.count?
    totalApiEndpoints := ← v.required "totalAPIEndpoints" Json.count?
    totalLines := ← v.required "totalLines" Json.count?
    averageComplexity := ← v.required "averageComplexity" Json.fraction?
    languageBreakdown := ← v.required "languageBreakdown" breakdownOfJson? }

end Metrics

namespace AnalysisResult

/-- There is no field for skipped files if there are none. -/
def toJson (r : AnalysisResult) : Json :=
  .fieldsOf [
    ("metrics", some r.metrics.toJson),
    ("dependencies", some r.dependencies.toJson),
    ("technologies", some (.strings r.technologies)),
    ("architecture", some r.architecture.toJson),
    ("apiEndpoints", some (.array (r.apiEndpoints.map (·.toJson)))),
    ("components", some (.array (r.components.map (·.toJson)))),
    ("sourceFiles", some (.array (r.sourceFiles.map (·.toJson)))),
    ("skippedFiles",
      if r.skippedFiles.isEmpty then none
      else some (.array (r.skippedFiles.map (·.toJson))))]

def ofJson? (v : Json) : Option AnalysisResult := do
  return {
    metrics := ← v.required "metrics" Metrics.ofJson?
    dependencies := ← v.required "dependencies" DependencySummary.ofJson?
    technologies := ← v.required "technologies" Json.textSet?
    architecture := ← v.required "architecture" Architecture.ofJson?
    apiEndpoints := ← v.required "apiEndpoints" (Json.list? ApiEndpointRecord.ofJson?)
    components := ← v.required "components" (Json.list? ComponentRecord.ofJson?)
    sourceFiles := ← v.required "sourceFiles" (Json.list? ParsedFile.ofJson?)
    skippedFiles := ← v.withDefault "skippedFiles" [] (Json.list? SkippedFile.ofJson?) }

end AnalysisResult

end CodeSurvey
