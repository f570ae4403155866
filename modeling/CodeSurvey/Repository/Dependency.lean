import CodeSurvey.Config.Basic
import CodeSurvey.Record.Basic
import CodeSurvey.Repository.Manifest
import CodeSurvey.Text.Lowercase
import CodeSurvey.Text.Sorted

/-!
# Dependencies

What the names of a package's dependencies say about it. A name falls into a
category if it contains one of the texts of the category, whatever their case;
it may fall into several.
-/

namespace CodeSurvey

/-- The names in each category, sorted. -/
structure Categories where
  frameworks : List String
  uiLibraries : List String
  databases : List String
  deriving DecidableEq, Repr

structure DependencySummary where
  production : List (String × String)
  development : List (String × String)
  /-- Every name once, those of production first. -/
  all : List String
  totalCount : Nat
  categories : Categories
  deriving DecidableEq, Repr

/-- The names that contain one of the texts, sorted and each once. -/
def namesMatching (texts names : List String) : List String :=
  sortedSet (names.filter fun n => texts.any (containsIgnoringCase n))

namespace Categories

def ofNames (p : Patterns) (names : List String) : Categories where
  frameworks := namesMatching p.frameworks names
  uiLibraries := namesMatching p.uiLibraries names
  databases := namesMatching p.databases names

end Categories

namespace Manifest

def summary (p : Patterns) (m : Manifest) : DependencySummary where
  production := m.production
  development := m.development
  all := m.names
  totalCount := m.names.length
  categories := Categories.ofNames p m.names

end Manifest

namespace Language

/-- The technology that a file of a language shows. -/
def technology? : Language → Option String
  | typescript | tsx => some "TypeScript"
  | javascript | jsx => some "JavaScript"
  | _ => none

end Language

/-- The technologies of a repository, sorted: those of its files and those that
its dependencies stand for. -/
def detectTechnologies (p : Patterns) (m : Manifest) (files : List ParsedFile) : List String :=
  let matching := p.technologies.filter fun rule =>
    m.names.any fun n => containsIgnoringCase n rule.contains
  sortedSet (files.filterMap (·.language.technology?) ++ matching.map (·.label))

end CodeSurvey
