import CodeSurvey.Directory.Glob
import CodeSurvey.Directory.Tree
import CodeSurvey.Text.Whitespace

/-!
# Ignore files

An ignore file holds a rule per line. A rule applies to the paths below the
directory of its file; of several rules that match a path the last one counts.
Of several ignore files the nearest one with a matching rule counts, and ignore
files of one kind are asked before those of the next kind.

A line with a fault states no rule, and the lines behind it still do. What is
wrong with a file is kept beside its rules (`IgnoreFile.faults`), because in some
places it is not passed over.

The rules that a user has for all directories are no part of a tree, and are left
out.
-/

namespace CodeSurvey

structure IgnoreRule where
  pattern : Glob
  /-- Whether a path that matches is kept. -/
  isException : Bool
  onlyDirectories : Bool
  deriving Repr

/-- What is wrong with a line of an ignore file. -/
inductive LineFault where
  /-- The bytes of the line are no text. -/
  | notText
  | badPattern (pattern : String) (fault : GlobFault)
  deriving DecidableEq, Repr

namespace LineFault

def message : LineFault → String
  | notText => "stream did not contain valid UTF-8"
  | badPattern pattern fault => "error parsing glob '" ++ pattern ++ "': " ++ fault.message

end LineFault

namespace IgnoreRule

/-- A line without the white space at its end, unless a backslash keeps that. -/
def withoutBlanks (line : List Char) : List Char :=
  match line.reverse with
  | ' ' :: '\\' :: _ => line
  | cs => (cs.dropWhile isWhiteSpace).reverse

/-- A line without the slash at its end, and whether there was one. -/
def withoutSlash (line : List Char) : List Char × Bool :=
  match line.reverse with
  | '/' :: '\\' :: cs => (cs.reverse, true)
  | '/' :: cs => (cs.reverse, true)
  | _ => (line, false)

/-- The pattern of a whole path: a name without slashes is looked for in every
directory, and two stars at the end stand for what is in a directory. -/
def wholePattern (isAnchored : Bool) (line : List Char) : List Char :=
  let everywhere := !isAnchored && !line.contains '/' && line != ['*', '*']
  let line := if everywhere then '*' :: '*' :: '/' :: line else line
  match line.reverse with
  | '*' :: '*' :: '/' :: _ => line ++ ['/', '*']
  | _ => line

/-- What marks stand in front of a pattern: an exception, and a slash that ties
it to the directory of the file. -/
def marks (line : List Char) : Bool × Bool × List Char :=
  match line with
  | '\\' :: '!' :: cs => (false, false, '!' :: cs)
  | '\\' :: '#' :: cs => (false, false, '#' :: cs)
  | '!' :: '/' :: cs => (true, true, cs)
  | '!' :: cs => (true, false, cs)
  | '/' :: cs => (false, true, cs)
  | cs => (false, false, cs)

/-- The rule that a line states; comments and empty lines state none. -/
def ofLine (line : List Char) : Except LineFault (Option IgnoreRule) :=
  let stated := withoutBlanks line
  if line.head? = some '#' ∨ stated.isEmpty then .ok none
  else
    let (isException, isAnchored, rest) := marks stated
    let (rest, onlyDirectories) := withoutSlash rest
    match Glob.ofChars (wholePattern isAnchored rest) with
    | .ok pattern => .ok (some ⟨pattern, isException, onlyDirectories⟩)
    | .error fault => .error (.badPattern (String.ofList stated) fault)

end IgnoreRule

/-- The rules of an ignore file, in their order. -/
abbrev IgnoreRules := List IgnoreRule

/-- What is read of an ignore file. -/
structure IgnoreFile where
  rules : IgnoreRules
  /-- The numbers of the lines with a fault, and what is wrong with them. -/
  faults : List (Nat × LineFault)

namespace IgnoreFile

/-- The file that is not there. -/
def missing : IgnoreFile := ⟨[], []⟩

/-- The bytes between line ends: line feeds, with carriage returns in front of
them or without. -/
def byteLines : List UInt8 → List (List UInt8)
  | [] => [[]]
  | 13 :: 10 :: bs => [] :: byteLines bs
  | 10 :: bs => [] :: byteLines bs
  | b :: bs =>
    match byteLines bs with
    | [] => [[b]]
    | line :: lines => (b :: line) :: lines

def lineText? (line : List UInt8) : Option String := String.fromUTF8? (ByteArray.mk line.toArray)

/-- The characters of the line with a number. A byte order mark is no part of the
first line. -/
def lineChars (number : Nat) (s : String) : List Char :=
  if number = 1 then s.toList.dropWhile (· == '\uFEFF') else s.toList

/-- Read lines, the first of which has a number. Nothing behind a line that is no
text counts. -/
def ofLines (number : Nat) : List (List UInt8) → IgnoreFile
  | [] => missing
  | line :: lines =>
    match lineText? line with
    | none => ⟨[], [(number, .notText)]⟩
    | some s =>
      let behind := ofLines (number + 1) lines
      match IgnoreRule.ofLine (lineChars number s) with
      | .ok rule => { behind with rules := rule.toList ++ behind.rules }
      | .error fault => { behind with faults := (number, fault) :: behind.faults }

def ofBytes (content : ByteArray) : IgnoreFile := ofLines 1 (byteLines content.toList)

/-- The faults that are reported. That a file ceases to be a text is not, unless
something else is wrong with it. -/
def reported (f : IgnoreFile) : List (Nat × LineFault) :=
  if f.faults.all (·.2 = .notText) then [] else f.faults

end IgnoreFile

namespace IgnoreRules

/-- Whether a path is kept, if a rule matches it. -/
def verdict? (isDirectory : Bool) (path : List UInt8) (rules : IgnoreRules) : Option Bool :=
  (rules.reverse.find? fun r =>
    (isDirectory || !r.onlyDirectories) && r.pattern.isMatch path).map (·.isException)

end IgnoreRules

/-- The ignore files of a directory, one list of rules per kind; the kinds are
in the order in which they are asked. -/
structure IgnoreLevel where
  kinds : List IgnoreRules
  /-- The names that lead from the directory to the one at hand. -/
  below : List String

namespace IgnoreLevel

/-- The ignore file at a place below a directory. -/
def fileAt (place : List String) (entries : Entries) : IgnoreFile :=
  match entries.follow [] place with
  | some (.file content, _) => .ofBytes content
  | _ => .missing

def rulesAt (place : List String) (entries : Entries) : IgnoreRules := (fileAt place entries).rules

/-- The places of the ignore files of a directory, in the order in which they are
asked: the general one, and those of version control if they are respected. -/
def placesAsked (respectGitignore : Bool) : List (List String) :=
  [".ignore"] :: if respectGitignore then [[".gitignore"], [".git", "info", "exclude"]] else []

/-- The ignore files of a directory. -/
def ofDirectory (respectGitignore : Bool) (entries : Entries) : IgnoreLevel where
  kinds := (placesAsked respectGitignore).map (rulesAt · entries)
  below := []

/-- The same ignore files, seen from a directory within. -/
def enter (name : String) (l : IgnoreLevel) : IgnoreLevel := { l with below := l.below ++ [name] }

/-- The bytes of a path. -/
def pathBytes (names : List String) : List UInt8 := ("/".intercalate names).toUTF8.toList

/-- Whether a name in the directory at hand is ignored, by the levels from the
nearest one outwards. -/
def ignores (levels : List IgnoreLevel) (name : String) (isDirectory : Bool) : Bool :=
  let kindCount := (levels.map (·.kinds.length)).foldl max 0
  let verdicts := (List.range kindCount).flatMap fun k =>
    levels.filterMap fun l =>
      IgnoreRules.verdict? isDirectory (pathBytes (l.below ++ [name])) (l.kinds[k]?.getD [])
  verdicts.head? == some false

end IgnoreLevel

/-- A fault of an ignore file. -/
structure IgnoreFault where
  /-- The names that lead to the file from the root on. -/
  file : List String
  line : Nat
  fault : LineFault
  deriving DecidableEq, Repr

namespace IgnoreFault

def message (f : IgnoreFault) : String :=
  "/" ++ "/".intercalate f.file ++ ": line " ++ toString f.line ++ ": " ++ f.fault.message

/-- What is reported of the ignore files that are asked in a directory; `names`
lead to it. -/
def ofDirectory (respectGitignore : Bool) (names : List String) (entries : Entries) :
    List IgnoreFault :=
  (IgnoreLevel.placesAsked respectGitignore).flatMap fun place =>
    (IgnoreLevel.fileAt place entries).reported.map fun (line, fault) =>
      ⟨names ++ place, line, fault⟩

end IgnoreFault

end CodeSurvey
