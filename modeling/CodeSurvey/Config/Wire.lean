import CodeSurvey.Config.Basic
import CodeSurvey.Json.Decode

/-!
# Configurations as JSON

Each section is an object. A reader takes the standard value for a field that
is missing; a writer leaves out none.
-/

namespace CodeSurvey

/-- Read a section, which is an object, with a reader of its fields. -/
def Json.section? {α : Type} (read : Json → Option α) (v : Json) : Option α :=
  if v.isObject then read v else none

/-- Read the section under a key; a section that is missing has no fields. -/
def Json.sectionAt? {α : Type} (key : String) (read : Json → Option α) (v : Json) : Option α :=
  ((v.field? key).getD (.object [])).section? read

namespace TechnologyRule

def toJson (r : TechnologyRule) : Json :=
  .object [("contains", .string r.contains), ("label", .string r.label)]

def ofJson? (v : Json) : Option TechnologyRule := do
  return ⟨← v.required "contains" Json.string?, ← v.required "label" Json.string?⟩

end TechnologyRule

namespace Patterns

def toJson (p : Patterns) : Json :=
  .object [
    ("frameworks", .strings p.frameworks),
    ("ui_libraries", .strings p.uiLibraries),
    ("databases", .strings p.databases),
    ("technologies", .array (p.technologies.map (·.toJson)))]

def ofJson? (v : Json) : Option Patterns := do
  return {
    frameworks :=
      ← v.withDefault "frameworks" standard.frameworks (Json.list? Json.string?)
    uiLibraries :=
      ← v.withDefault "ui_libraries" standard.uiLibraries (Json.list? Json.string?)
    databases := ← v.withDefault "databases" standard.databases (Json.list? Json.string?)
    technologies :=
      ← v.withDefault "technologies" standard.technologies (Json.list? TechnologyRule.ofJson?) }

end Patterns

namespace RouteConfig

def toJson (c : RouteConfig) : Json :=
  .object [
    ("entry_names", .strings c.entryNames),
    ("extensions", .strings c.extensions),
    ("pages_dir", .string c.pagesDir)]

def ofJson? (v : Json) : Option RouteConfig := do
  return {
    entryNames := ← v.withDefault "entry_names" standard.entryNames (Json.list? Json.string?)
    extensions := ← v.withDefault "extensions" standard.extensions (Json.list? Json.string?)
    pagesDir := ← v.withDefault "pages_dir" standard.pagesDir Json.string? }

end RouteConfig

namespace ComponentConfig

def toJson (c : ComponentConfig) : Json :=
  .object [("base_classes", .strings c.baseClasses), ("render_method", .string c.renderMethod)]

def ofJson? (v : Json) : Option ComponentConfig := do
  return {
    baseClasses := ← v.withDefault "base_classes" standard.baseClasses (Json.list? Json.string?)
    renderMethod := ← v.withDefault "render_method" standard.renderMethod Json.string? }

end ComponentConfig

namespace ParserConfig

def toJson (c : ParserConfig) : Json :=
  .object [("timeout_ms", .natural c.timeoutMs), ("max_file_bytes", .natural c.maxFileBytes)]

def ofJson? (v : Json) : Option ParserConfig := do
  return {
    timeoutMs := ← v.withDefault "timeout_ms" standard.timeoutMs Json.count?
    maxFileBytes := ← v.withDefault "max_file_bytes" standard.maxFileBytes Json.count? }

end ParserConfig

namespace ParallelConfig

def toJson (c : ParallelConfig) : Json :=
  .object [
    ("enabled", .bool c.enabled),
    ("max_concurrency", (c.maxConcurrency.map .natural).getD .null),
    ("batch_size", (c.batchSize.map .natural).getD .null)]

/-- A null is a value of the two counts, and not the same as a missing field. -/
def ofJson? (v : Json) : Option ParallelConfig := do
  return {
    enabled := ← v.withDefault "enabled" standard.enabled Json.bool?
    maxConcurrency :=
      ← v.withDefault "max_concurrency" standard.maxConcurrency (Json.nullable? Json.count?)
    batchSize := ← v.withDefault "batch_size" standard.batchSize (Json.nullable? Json.count?) }

end ParallelConfig

namespace WalkerConfig

def toJson (c : WalkerConfig) : Json :=
  .object [
    ("max_files", .natural c.maxFiles),
    ("respect_gitignore", .bool c.respectGitignore),
    ("skip_dirs", .strings c.skipDirs)]

def ofJson? (v : Json) : Option WalkerConfig := do
  return {
    maxFiles := ← v.withDefault "max_files" standard.maxFiles Json.count?
    respectGitignore := ← v.withDefault "respect_gitignore" standard.respectGitignore Json.bool?
    skipDirs := ← v.withDefault "skip_dirs" standard.skipDirs (Json.list? Json.string?) }

end WalkerConfig

namespace Config

def toJson (c : Config) : Json :=
  .object [
    ("patterns", c.patterns.toJson),
    ("routes", c.routes.toJson),
    ("components", c.components.toJson),
    ("parser", c.parser.toJson),
    ("parallel", c.parallel.toJson),
    ("walker", c.walker.toJson)]

def ofJson? (v : Json) : Option Config := do
  return {
    patterns := ← v.sectionAt? "patterns" Patterns.ofJson?
    routes := ← v.sectionAt? "routes" RouteConfig.ofJson?
    components := ← v.sectionAt? "components" ComponentConfig.ofJson?
    parser := ← v.sectionAt? "parser" ParserConfig.ofJson?
    parallel := ← v.sectionAt? "parallel" ParallelConfig.ofJson?
    walker := ← v.sectionAt? "walker" WalkerConfig.ofJson? }

end Config

end CodeSurvey
