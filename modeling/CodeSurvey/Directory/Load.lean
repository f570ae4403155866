import CodeSurvey.Config.Document
import CodeSurvey.Directory.Tree
import CodeSurvey.Repository.Manifest

/-!
# Settings and manifests of a directory

The files that steer a survey. A configuration that is named must be there and
be valid; one that is only looked for is taken from the nearest directory that
has a valid one, and problems with it are passed over.
-/

namespace CodeSurvey

/-- Why a configuration file that was named cannot be used. -/
inductive ConfigFileFailure where
  | unreadable
  | invalid (e : ConfigFailure)
  deriving DecidableEq, Repr

namespace ConfigFileFailure

/-- What is wrong with the file at a path, the outer cause first. -/
def message (path : String) : ConfigFileFailure → String
  | unreadable => "Failed to read config file " ++ path
  | invalid e => "Invalid config file " ++ path ++ ": " ++ e.message

end ConfigFileFailure

namespace FileTree

/-- The configuration in the file at a path. -/
def loadConfig (path : String) (t : FileTree) : Except ConfigFileFailure Config :=
  match t.readText? path with
  | none => .error .unreadable
  | some contents =>
    match Config.parse contents with
    | .ok c => .ok c
    | .error e => .error (.invalid e)

/-- How many directories are searched for a configuration. -/
def searchDepth : Nat := 10

/-- The paths at which a configuration is looked for, the nearest one first. -/
def configPaths (start : String) : List String :=
  (Path.ancestors searchDepth start.toList).map fun dir =>
    String.ofList (Path.join dir configFileName.toList)

/-- The configuration for a directory. -/
def discoverConfig (start : String) (t : FileTree) : Config :=
  let valid := (configPaths start).findSome? fun path =>
    match t.loadConfig path with
    | .ok c => some c
    | .error _ => none
  valid.getD .standard

end FileTree

/-- Why a manifest that is there cannot be used. -/
inductive ManifestFileFailure where
  /-- The bytes of the file are no text. -/
  | notText
  | malformed (path : String) (e : ManifestFailure)
  deriving DecidableEq, Repr

namespace ManifestFileFailure

def message : ManifestFileFailure → String
  | notText => "File system error: stream did not contain valid UTF-8"
  | malformed path e => e.message path

end ManifestFileFailure

/-- The name of the file that describes a package. -/
def manifestFileName : String := "package.json"

namespace FileTree

/-- The path of the manifest of the directory at a path. -/
def manifestPath (path : String) : String :=
  String.ofList (Path.join path.toList manifestFileName.toList)

/-- The manifest of the directory at a path, if it has one. -/
def loadManifest (path : String) (t : FileTree) :
    Except ManifestFileFailure (Option Manifest) :=
  let file := manifestPath path
  match t.find? file with
  | some (.file content) =>
    match String.fromUTF8? content with
    | none => .error .notText
    | some contents =>
      match Manifest.parse contents with
      | .ok m => .ok (some m)
      | .error e => .error (.malformed file e)
  | _ => .ok none

end FileTree

end CodeSurvey
