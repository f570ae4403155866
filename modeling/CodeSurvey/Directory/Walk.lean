import CodeSurvey.Config.Basic
import CodeSurvey.Directory.Ignore
import CodeSurvey.Json.Value
import CodeSurvey.Record.Basic

/-!
# Collecting source files

The files of a directory tree that are worth a look: those in a known language
that no ignore file names, in no directory that is skipped. Application code
comes first, so that it is what a limit on the number of files leaves.

A line of an ignore file that states no pattern is passed over at the directory
that is walked and below it. The ignore files of the directories around it are
read before the walk begins, and there a fault ends it (`FileTree.walk`). Files and
directories can be read, as in every `FileTree`; the failures of a machine that
refuses are left out.
-/

namespace CodeSurvey

/-- A file and the names that lead to it from the directory that is walked. -/
structure FoundFile where
  names : List String
  content : ByteArray

namespace FoundFile

def path (f : FoundFile) : String := "/".intercalate f.names

def language (f : FoundFile) : Language := .classify f.path

/-- The top directories that usually hold application code. -/
def applicationDirs : List String := ["app", "components", "lib", "pages"]

/-- The rank of a file: application code that can be analysed, other code that
can be analysed, everything else. A directory `src` around it does not matter. -/
def priority (f : FoundFile) : Nat :=
  if !f.language.isAnalyzable then 2
  else
    let top := match f.names with
      | "src" :: name :: _ => name
      | ["src"] => ""
      | name :: _ => name
      | [] => ""
    if applicationDirs.contains top then 0 else 1

/-- The order of paths: name by name, each in byte order. -/
def namesLess : List String → List String → Bool
  | [], [] => false
  | [], _ :: _ => true
  | _ :: _, [] => false
  | a :: as, b :: bs => textLess a b || (a = b && namesLess as bs)

/-- Whether `a` comes strictly before `b`. -/
def comesBefore (a b : FoundFile) : Bool :=
  a.priority < b.priority || (a.priority = b.priority && namesLess a.names b.names)

end FoundFile

namespace WalkerConfig

/-- Whether a directory is never entered. -/
def skips (c : WalkerConfig) (name : String) : Bool :=
  name.toList.head? = some '.' || c.skipDirs.contains name

end WalkerConfig

mutual

/-- The files at or below an entry. `above` are the names that lead to it, and
`levels` the ignore files of the directories around it, the nearest first. -/
def Entry.files (c : WalkerConfig) (levels : List IgnoreLevel) (above : List String)
    (name : String) : Entry → List FoundFile
  | .file content =>
    if IgnoreLevel.ignores levels name false then [] else [⟨above ++ [name], content⟩]
  | .directory entries =>
    if IgnoreLevel.ignores levels name true || c.skips name then []
    else
      let own := IgnoreLevel.ofDirectory c.respectGitignore entries
      filesAmong c (own :: levels.map (·.enter name)) (above ++ [name]) entries

/-- The files at or below the entries of a directory. -/
def filesAmong (c : WalkerConfig) (levels : List IgnoreLevel) (above : List String) :
    List (String × Entry) → List FoundFile
  | [] => []
  | (name, e) :: rest => e.files c levels above name ++ filesAmong c levels above rest

end

namespace Entries

/-- The ignore files of a directory and of those around it, the nearest first;
`above` are the directories that lead to it with the names that are taken. -/
def levelsAround (c : WalkerConfig) (entries : Entries) (above : List (String × Entries)) :
    List IgnoreLevel :=
  let rec outer : List String → List (String × Entries) → List IgnoreLevel
    | _, [] => []
    | path, (name, around) :: rest =>
      let level := IgnoreLevel.ofDirectory c.respectGitignore around
      { level with below := name :: path } :: outer (name :: path) rest
  IgnoreLevel.ofDirectory c.respectGitignore entries :: outer [] above

/-- What is reported of the ignore files in the directories around one, from the
root on. -/
def faultsAround (c : WalkerConfig) : List (String × Entries) → List IgnoreFault
  | [] => []
  | (_, around) :: rest =>
    faultsAround c rest
      ++ IgnoreFault.ofDirectory c.respectGitignore (rest.map (·.1)).reverse around

/-- The files of a directory that are collected, in their order. -/
def foundFiles (c : WalkerConfig) (entries : Entries) (above : List (String × Entries)) :
    List FoundFile :=
  let files := (filesAmong c (levelsAround c entries above) [] entries).filter fun f =>
    f.language ≠ .unknown
  (files.mergeSort fun a b => !FoundFile.comesBefore b a).take c.maxFiles

end Entries

namespace FoundFile

/-- The source file for an analysis. A file that is too large is listed without
its content, one that is no text is left out. -/
def source? (maxFileBytes : Nat) (f : FoundFile) : Option SourceFile :=
  let size := f.content.size
  if 0 < maxFileBytes ∧ maxFileBytes < size then some ⟨f.path, "", size⟩
  else (String.fromUTF8? f.content).map fun s => ⟨f.path, s, size⟩

end FoundFile

/-- Why no files can be collected at a path. -/
inductive WalkFailure where
  | notADirectory
  /-- Ignore files in the directories around it have faults. -/
  | badIgnoreFiles (faults : List IgnoreFault)
  deriving DecidableEq, Repr

namespace WalkFailure

def message : WalkFailure → String
  | notADirectory => "File system error: not a directory"
  | badIgnoreFiles faults => "\n".intercalate (faults.map (·.message))

end WalkFailure

namespace FileTree

/-- Whether a path is the name for the standard input. A walk from there comes to
no file, even if it is the name of a directory. -/
def isStandardInput (path : String) : Bool := Path.components path.toList == [['-']]

/-- The files that are found at or below the directory at a path. -/
def walk (c : WalkerConfig) (path : String) (t : FileTree) :
    Except WalkFailure (List FoundFile) :=
  match t.locate? path with
  | some (.directory entries, above) =>
    if isStandardInput path then .ok []
    else
      let faults := Entries.faultsAround c above
      if faults = [] then .ok (Entries.foundFiles c entries above)
      else .error (.badIgnoreFiles faults)
  | _ => .error .notADirectory

/-- The source files below the directory at a path. -/
def collect (c : WalkerConfig) (maxFileBytes : Nat) (path : String) (t : FileTree) :
    Except WalkFailure (List SourceFile) :=
  (t.walk c path).map fun files => files.filterMap (·.source? maxFileBytes)

end FileTree

end CodeSurvey
