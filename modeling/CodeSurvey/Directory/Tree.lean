import CodeSurvey.Directory.Path

/-!
# Directory trees

A directory as a value: names with what they stand for. A `FileTree` is the root
directory with the place at which relative paths begin.

There are files and directories, and every name is a text. Links and devices, which
no walk takes for a file, names that are no text, and entries that cannot be read
are left out.
-/

namespace CodeSurvey

/-- What a name in a directory stands for. -/
inductive Entry where
  | file (content : ByteArray)
  | directory (entries : List (String × Entry))

/-- The entries of a directory; no name occurs twice. -/
abbrev Entries := List (String × Entry)

namespace Entry

/-- The text of a file; nothing if its bytes are no text. -/
def text? : Entry → Option String
  | file content => String.fromUTF8? content
  | directory _ => none

def entries? : Entry → Option Entries
  | directory entries => some entries
  | file _ => none

def size : Entry → Nat
  | file content => content.size
  | directory _ => 0

end Entry

namespace Entries

/-- Give a name an entry, in the place of the one it had. -/
def set (name : String) (e : Entry) : Entries → Entries
  | [] => [(name, e)]
  | (n, old) :: rest => if n = name then (n, e) :: rest else (n, old) :: set name e rest

/-- Put an entry at the end of a path, making the directories on the way there.
A directory that is there already stays as it is. -/
def put (e : Entry) : List String → Entries → Entries
  | [], entries => entries
  | [name], entries =>
    match e, entries.lookup name with
    | .directory [], some (.directory _) => entries
    | _, _ => entries.set name e
  | name :: path, entries =>
    match entries.lookup name with
    | some (.directory inner) => entries.set name (.directory (put e path inner))
    | _ => entries.set name (.directory (put e path []))

/-- Follow names from a directory; `above` are the directories that lead to it
with the names that were taken, the nearest first. The answer is the entry with
the directories that lead to it. Two dots lead back up, and at the root nowhere. -/
def follow (entries : Entries) (above : List (String × Entries)) :
    List String → Option (Entry × List (String × Entries))
  | [] => some (.directory entries, above)
  | ".." :: names =>
    match above with
    | (_, outer) :: rest => follow outer rest names
    | [] => follow entries [] names
  | name :: names =>
    match entries.lookup name with
    | some (.directory inner) => follow inner ((name, entries) :: above) names
    | some (.file content) =>
      if names.isEmpty then some (.file content, (name, entries) :: above) else none
    | none => none

end Entries

structure FileTree where
  root : Entries
  /-- The names that lead from the root to where relative paths begin. -/
  here : List String

namespace FileTree

/-- The names of a path from the root on. -/
def fullNames (path : String) (t : FileTree) : List String :=
  let names := (Path.names path.toList).map String.ofList
  if path.toList.head? = some '/' then names else t.here ++ names

/-- Whether a path can only lead to a directory. -/
def endsIdle (path : String) : Bool :=
  match (partsAt '/' path.toList).reverse with
  | last :: _ => Path.isIdle last
  | [] => false

/-- The entry that a path leads to, and the directories on the way there. The
empty path leads nowhere. -/
def locate? (path : String) (t : FileTree) : Option (Entry × List (String × Entries)) := do
  if path = "" then failure
  let found ← t.root.follow [] (t.fullNames path)
  match found.1 with
  | .directory _ => some found
  | .file _ => if endsIdle path then none else some found

def find? (path : String) (t : FileTree) : Option Entry := (t.locate? path).map (·.1)

/-- The text of the file at a path. -/
def readText? (path : String) (t : FileTree) : Option String := (t.find? path).bind (·.text?)

/-- The tree with another text in the file at a path; nothing if there can be no
file, because the path is that of a directory or leads through what is none. -/
def write? (path text : String) (t : FileTree) : Option FileTree :=
  match (t.fullNames path).reverse with
  | [] => none
  | name :: around =>
    if path = "" || endsIdle path || name = ".." then none
    else
      match t.root.follow [] around.reverse with
      | some (.directory entries, above) =>
        match entries.lookup name with
        | some (.directory _) => none
        | _ =>
          let names := (above.map (·.1)).reverse ++ [name]
          some { t with root := t.root.put (.file text.toUTF8) names }
      | _ => none

end FileTree

end CodeSurvey
