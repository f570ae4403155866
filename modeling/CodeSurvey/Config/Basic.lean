/-!
# Configuration

What a user may set, in six sections. Every setting has a standard value, so
an empty configuration is complete. `Config.validate` refuses the settings that
no run could work with; the first one in the order of the sections counts.
-/

namespace CodeSurvey

/-- A label that a dependency stands for, if its name contains a text. -/
structure TechnologyRule where
  contains : String
  label : String
  deriving DecidableEq, Repr

/-- Texts to look for in the names of dependencies. -/
structure Patterns where
  frameworks : List String
  uiLibraries : List String
  databases : List String
  technologies : List TechnologyRule
  deriving DecidableEq, Repr

namespace Patterns

def standard : Patterns where
  frameworks := ["next", "react", "vue", "angular", "svelte", "express", "fastify", "nest"]
  uiLibraries :=
    ["@radix-ui", "@headlessui", "@mui", "antd", "chakra-ui", "tailwindcss", "bootstrap"]
  databases :=
    ["prisma", "mongoose", "sequelize", "typeorm", "@supabase", "mongodb", "mysql", "postgres",
      "redis"]
  technologies := [⟨"react", "React"⟩, ⟨"next", "Next.js"⟩, ⟨"tailwind", "Tailwind CSS"⟩]

end Patterns

/-- Where the handlers of routes are found. -/
structure RouteConfig where
  /-- The names, without extension, of the files that handle a route. -/
  entryNames : List String
  /-- The extensions of such files, without the dot. -/
  extensions : List String
  /-- Every file below the `api` directory of this directory handles a route.
  If it is empty, no file does for this reason. -/
  pagesDir : String
  deriving DecidableEq, Repr

namespace RouteConfig

def standard : RouteConfig := ⟨["route"], ["ts", "js", "tsx", "jsx"], "pages"⟩

end RouteConfig

/-- What makes a class a component: its superclass or one of its methods. -/
structure ComponentConfig where
  baseClasses : List String
  renderMethod : String
  deriving DecidableEq, Repr

namespace ComponentConfig

def standard : ComponentConfig :=
  ⟨["Component", "PureComponent", "React.Component", "React.PureComponent"], "render"⟩

end ComponentConfig

/-- The limits on a file that is to be parsed. -/
structure ParserConfig where
  /-- Milliseconds after which a parser is to be stopped. It is read and written as a
  setting, and no analysis looks at it: time is left out. -/
  timeoutMs : Nat
  /-- The size of the largest file that is parsed; zero stands for no limit. -/
  maxFileBytes : Nat
  deriving DecidableEq, Repr

namespace ParserConfig

def standard : ParserConfig := ⟨5000, 1048576⟩

end ParserConfig

/-- How a batch of files is spread over workers. -/
structure ParallelConfig where
  enabled : Bool
  /-- The number of workers; nothing leaves it to the machine. -/
  maxConcurrency : Option Nat
  /-- The number of files that are handed out at a time. -/
  batchSize : Option Nat
  deriving DecidableEq, Repr

namespace ParallelConfig

def standardBatchSize : Nat := 100

def standard : ParallelConfig := ⟨true, none, some standardBatchSize⟩

/-- The size of a chunk, which is never zero. -/
def effectiveBatchSize (c : ParallelConfig) : Nat := max 1 (c.batchSize.getD standardBatchSize)

theorem effectiveBatchSize_pos (c : ParallelConfig) : 0 < c.effectiveBatchSize := by
  unfold effectiveBatchSize; omega

end ParallelConfig

/-- Which files of a directory are collected. -/
structure WalkerConfig where
  maxFiles : Nat
  respectGitignore : Bool
  /-- The names of the directories that are never entered. -/
  skipDirs : List String
  deriving DecidableEq, Repr

namespace WalkerConfig

def standard : WalkerConfig where
  maxFiles := 100
  respectGitignore := true
  skipDirs :=
    ["node_modules", ".git", ".next", "dist", "build", "coverage", ".cache", ".vercel", ".turbo",
      "vendor", "target"]

end WalkerConfig

structure Config where
  patterns : Patterns
  routes : RouteConfig
  components : ComponentConfig
  parser : ParserConfig
  parallel : ParallelConfig
  walker : WalkerConfig
  deriving DecidableEq, Repr

/-- A setting that no run could work with. -/
inductive InvalidSetting where
  | noWorkers
  | noFiles
  | noEntryNames
  deriving DecidableEq, Repr

namespace InvalidSetting

def message : InvalidSetting → String
  | noWorkers => "Configuration error: parallel.max_concurrency must be at least 1"
  | noFiles => "Configuration error: walker.max_files must be at least 1"
  | noEntryNames => "Configuration error: routes.entry_names must name at least one file stem"

end InvalidSetting

namespace Config

def standard : Config where
  patterns := .standard
  routes := .standard
  components := .standard
  parser := .standard
  parallel := .standard
  walker := .standard

def validate (c : Config) : Except InvalidSetting Unit :=
  if c.parallel.maxConcurrency = some 0 then .error .noWorkers
  else if c.walker.maxFiles = 0 then .error .noFiles
  else if c.routes.entryNames = [] then .error .noEntryNames
  else .ok ()

end Config

end CodeSurvey
