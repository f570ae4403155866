import CodeSurvey.Json.Parser
import CodeSurvey.Json.Printer

/-!
# Manifests

The dependencies that a package declares: their names with the versions that
are asked for, in a section for production and one for development.
-/

namespace CodeSurvey

/-- Both sections are sorted by name and have every name once. -/
structure Manifest where
  production : List (String × String)
  development : List (String × String)
  deriving DecidableEq, Repr

namespace Manifest

def empty : Manifest := ⟨[], []⟩

def isEmpty (m : Manifest) : Bool := m.production.isEmpty && m.development.isEmpty

def productionNames (m : Manifest) : List String := m.production.map (·.1)

def developmentNames (m : Manifest) : List String := m.development.map (·.1)

/-- Every name once: those of production first, then those that are declared for
development only. -/
def names (m : Manifest) : List String :=
  m.productionNames ++ m.developmentNames.filter fun n => !m.productionNames.contains n

/-- Whether a name is declared in one of the sections. -/
def declares (m : Manifest) (name : String) : Bool :=
  m.productionNames.contains name || m.developmentNames.contains name

/-- The version in a manifest; one that is no text is kept as its JSON text. -/
def versionText : Json → String
  | .string s => s
  | v => v.compact

/-- A section of a package; what is no object has no dependencies. -/
def sectionOf (package : Json) (key : String) : List (String × String) :=
  match package.field? key with
  | some (.object fields) => fields.map fun (name, version) => (name, versionText version)
  | _ => []

/-- The manifest in the description of a package. -/
def ofPackage (package : Json) : Manifest :=
  ⟨sectionOf package "dependencies", sectionOf package "devDependencies"⟩

end Manifest

/-- Why a text describes no package. -/
inductive ManifestFailure where
  | invalidJson (e : JsonError)
  | notAnObject
  deriving DecidableEq, Repr

namespace ManifestFailure

/-- What is wrong with the file at a path. -/
def message (path : String) : ManifestFailure → String
  | invalidJson e => "Manifest error in " ++ path ++ ": invalid JSON: " ++ e.message
  | notAnObject => "Manifest error in " ++ path ++ ": expected a JSON object"

end ManifestFailure

namespace Manifest

/-- The manifest in the text of a package's description. -/
def parse (contents : String) : Except ManifestFailure Manifest :=
  match Json.parse contents with
  | .error e => .error (.invalidJson e)
  | .ok (.object fields) => .ok (ofPackage (.object fields))
  | .ok _ => .error .notAnObject

end Manifest

end CodeSurvey
