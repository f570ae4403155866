import CodeSurvey.Config.Basic
import CodeSurvey.Json.Decode
import CodeSurvey.Toml.Document

/-!
# Configurations as TOML

A section is a table; settings that nobody knows are ignored. A section may
also list the values of its settings in their order, without their names.
-/

namespace CodeSurvey

namespace Toml

def string? : Toml → Option String
  | string s => some s
  | _ => none

def boolean? : Toml → Option Bool
  | boolean b => some b
  | _ => none

/-- A count or a size. -/
def count? : Toml → Option Nat
  | integer (.ofNat n) => if n ≤ Json.maxWord then some n else none
  | _ => none

/-- The items of a list, however it is written. -/
def items? : Toml → Option (List Toml)
  | array items => some items
  | tables items => some (items.map (.table .header))
  | _ => none

def list? {α : Type} (item : Toml → Option α) (v : Toml) : Option (List α) :=
  v.items?.bind (·.mapM item)

/-- The setting with a name, which is the one at `index` in a section without
names. A date is a section without settings. -/
def setting? (index : Nat) (key : String) : Toml → Option (Option Toml)
  | table _ fields => some (fields.lookup key)
  | datetime _ => some none
  | v => v.items?.map (·[index]?)

def required {α : Type} (index : Nat) (key : String) (read : Toml → Option α) (v : Toml) :
    Option α := do
  (← v.setting? index key).bind read

/-- The value of a setting, or a default if it is missing. -/
def withDefault {α : Type} (index : Nat) (key : String) (standard : α) (read : Toml → Option α)
    (v : Toml) : Option α := do
  match ← v.setting? index key with
  | some w => read w
  | none => some standard

end Toml

namespace TechnologyRule

def ofToml? (v : Toml) : Option TechnologyRule := do
  return ⟨← v.required 0 "contains" Toml.string?, ← v.required 1 "label" Toml.string?⟩

end TechnologyRule

namespace Patterns

def ofToml? (v : Toml) : Option Patterns := do
  return {
    frameworks := ← v.withDefault 0 "frameworks" standard.frameworks (Toml.list? Toml.string?)
    uiLibraries :=
      ← v.withDefault 1 "ui_libraries" standard.uiLibraries (Toml.list? Toml.string?)
    databases := ← v.withDefault 2 "databases" standard.databases (Toml.list? Toml.string?)
    technologies :=
      ← v.withDefault 3 "technologies" standard.technologies (Toml.list? TechnologyRule.ofToml?) }

end Patterns

namespace RouteConfig

def ofToml? (v : Toml) : Option RouteConfig := do
  return {
    entryNames := ← v.withDefault 0 "entry_names" standard.entryNames (Toml.list? Toml.string?)
    extensions := ← v.withDefault 1 "extensions" standard.extensions (Toml.list? Toml.string?)
    pagesDir := ← v.withDefault 2 "pages_dir" standard.pagesDir Toml.string? }

end RouteConfig

namespace ComponentConfig

def ofToml? (v : Toml) : Option ComponentConfig := do
  return {
    baseClasses :=
      ← v.withDefault 0 "base_classes" standard.baseClasses (Toml.list? Toml.string?)
    renderMethod := ← v.withDefault 1 "render_method" standard.renderMethod Toml.string? }

end ComponentConfig

namespace ParserConfig

def ofToml? (v : Toml) : Option ParserConfig := do
  return {
    timeoutMs := ← v.withDefault 0 "timeout_ms" standard.timeoutMs Toml.count?
    maxFileBytes := ← v.withDefault 1 "max_file_bytes" standard.maxFileBytes Toml.count? }

end ParserConfig

namespace ParallelConfig

def ofToml? (v : Toml) : Option ParallelConfig := do
  let optionalCount (w : Toml) : Option (Option Nat) := w.count?.map some
  return {
    enabled := ← v.withDefault 0 "enabled" standard.enabled Toml.boolean?
    maxConcurrency := ← v.withDefault 1 "max_concurrency" standard.maxConcurrency optionalCount
    batchSize := ← v.withDefault 2 "batch_size" standard.batchSize optionalCount }

end ParallelConfig

namespace WalkerConfig

def ofToml? (v : Toml) : Option WalkerConfig := do
  return {
    maxFiles := ← v.withDefault 0 "max_files" standard.maxFiles Toml.count?
    respectGitignore :=
      ← v.withDefault 1 "respect_gitignore" standard.respectGitignore Toml.boolean?
    skipDirs := ← v.withDefault 2 "skip_dirs" standard.skipDirs (Toml.list? Toml.string?) }

end WalkerConfig

/-- Why a text is no configuration. -/
inductive ConfigFailure where
  /-- It is no TOML, or a setting has a value of another kind. -/
  | malformed
  | invalid (setting : InvalidSetting)
  deriving DecidableEq, Repr

/-- The name of the file that is looked for when none is named. -/
def configFileName : String := ".repodoc.toml"

namespace ConfigFailure

def message : ConfigFailure → String
  | malformed => "Failed to parse " ++ configFileName
  | invalid setting => setting.message

end ConfigFailure

namespace Config

def ofToml? (v : Toml) : Option Config := do
  return {
    patterns := ← v.withDefault 0 "patterns" standard.patterns Patterns.ofToml?
    routes := ← v.withDefault 1 "routes" standard.routes RouteConfig.ofToml?
    components := ← v.withDefault 2 "components" standard.components ComponentConfig.ofToml?
    parser := ← v.withDefault 3 "parser" standard.parser ParserConfig.ofToml?
    parallel := ← v.withDefault 4 "parallel" standard.parallel ParallelConfig.ofToml?
    walker := ← v.withDefault 5 "walker" standard.walker WalkerConfig.ofToml? }

/-- The configuration that a text states, if every run could work with it. -/
def parse (contents : String) : Except ConfigFailure Config :=
  match (TomlText.document? contents).bind fun fields => ofToml? (.table .header fields) with
  | none => .error .malformed
  | some c =>
    match c.validate with
    | .error setting => .error (.invalid setting)
    | .ok () => .ok c

end Config

end CodeSurvey
