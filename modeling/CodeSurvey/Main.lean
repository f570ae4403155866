import CodeSurvey.Command.Run

/-!
# The program

A command runs on a `FileTree`. What is here takes that tree from the machine,
as far as the command can look at it, hands it to `Command.run`, and does what
the outcome says. First comes what steers the survey: the ignore files and
settings of the directories on the way to the one that is asked for. Then comes
the directory itself, without the parts of it that the settings leave out.
-/

namespace CodeSurvey.Program

/-- The names in a directory that steer a survey of what is below it. -/
def steeringNames : List (List String) :=
  [[".ignore"], [".gitignore"], [".git", "info", "exclude"]]

def textOf (names : List String) : String := "/" ++ "/".intercalate names

/-- The entry at a path itself; a directory is left empty. -/
def entryAt? (path : String) : IO (Option Entry) := do
  let place := (← IO.currentDir) / path
  if ← place.isDir then return some (.directory [])
  if ← place.pathExists then return some (.file (← IO.FS.readBinFile place))
  return none

/-- The tree with the entry that these names lead to, if there is one. -/
def withEntry (t : FileTree) (names : List String) : IO FileTree := do
  match ← entryAt? (textOf names) with
  | some e => return { t with root := t.root.put e names }
  | none => return t

/-- The tree with all entries on the way along a path, and those that steer a
survey in each of the directories. -/
def withWay (t : FileTree) (path : String) : IO FileTree := do
  let names := t.fullNames path
  let mut t := t
  for count in List.range (names.length + 1) do
    let place := Path.settled (names.take count)
    unless place.isEmpty do
      t ← withEntry t place
    for name in steeringNames do
      t ← withEntry t (place ++ name)
  return t

/-- What a directory lists, with all that is below it. A link is neither a file
nor a directory of its own and is left out, and so is what can have no say: the
content of directories that are skipped and of files in no known language. -/
partial def entriesBelow (c : WalkerConfig) (listed : Array IO.FS.DirEntry) : IO Entries := do
  let mut entries : Entries := []
  for e in listed do
    let name := e.fileName
    match (← e.path.symlinkMetadata).type with
    | .dir =>
      let inner ← if c.skips name then pure [] else entriesBelow c (← e.path.readDir)
      entries := (name, .directory inner) :: entries
    | .file =>
      if Language.classify name != .unknown || steeringNames.contains [name] then
        entries := (name, .file (← IO.FS.readBinFile e.path)) :: entries
    | _ => pure ()
  return entries

/-- The tree that a request can look at. -/
def treeFor (q : SurveyRequest) : IO FileTree := do
  let here := (Path.names (← IO.currentDir).toString.toList).map String.ofList
  let mut t : FileTree := ⟨[], here⟩
  for path in ["."] ++ q.config.toList ++ q.output.toList
      ++ FileTree.configPaths q.path ++ [q.path] do
    t ← withWay t path
  t ← withWay t (FileTree.manifestPath q.path)
  match t.find? q.path, q.loadConfig t with
  | some (.directory _), .ok c =>
    let listed ← ((← IO.currentDir) / q.path).readDir
    let names := Path.settled (t.fullNames q.path)
    for (name, e) in ← entriesBelow c.walker listed do
      t := { t with root := t.root.put e (names ++ [name]) }
    return t
  | _, _ => return t

end CodeSurvey.Program

/-- Run the command that the words ask for, and answer its exit code. -/
def main (words : List String) : IO UInt32 := do
  let tree ← match CodeSurvey.CommandLine.parse words with
    | .ok q => CodeSurvey.Program.treeFor q
    | .error _ => pure ⟨[], []⟩
  let outcome := CodeSurvey.Command.run words tree
  (← IO.getStdout).putStr outcome.printed
  (← IO.getStderr).putStr outcome.complaint
  match outcome.written with
  | some (path, text) => IO.FS.writeFile path text
  | none => pure ()
  return UInt32.ofNat outcome.exitCode
