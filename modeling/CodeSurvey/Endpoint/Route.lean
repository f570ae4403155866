import CodeSurvey.Config.Basic
import CodeSurvey.Text.Split

/-!
# Routes of files

The path of a file decides which route it serves. Two layouts are known: a file
with a set name below an `api` directory serves the route of its directory, and
a file below the `api` directory of the pages directory serves the route of its
own name. `RouteConfig.route?` asks the second layout first.
-/

namespace CodeSurvey

namespace Route

/-! ## Segments -/

def isBracket (c : Char) : Bool := c = '[' || c = ']'

def isParenthesis (c : Char) : Bool := c = '(' || c = ')'

/-- A name, which has no brackets, and what follows it. -/
def name? (cs : List Char) : Option (List Char × List Char) :=
  let name := cs.takeWhile fun c => !isBracket c
  if name.isEmpty then none else some (name, cs.drop name.length)

/-- Whether a segment is a group, which is no part of the route. -/
def isGroup : List Char → Bool
  | '(' :: cs => cs.dropWhile (fun c => !isParenthesis c) == [')']
  | _ => false

/-- The name behind three dots in one or two pairs of brackets, which stands for
all segments that follow. -/
def catchAll? (segment : List Char) : Option (List Char) :=
  let inner? := match segment with
    | '[' :: '[' :: '.' :: '.' :: '.' :: cs => name? cs
    | '[' :: '.' :: '.' :: '.' :: cs => name? cs
    | _ => none
  match inner? with
  | some (name, [']']) | some (name, [']', ']']) => some name
  | _ => none

/-- The name in a pair of brackets, which stands for one segment. -/
def dynamic? : List Char → Option (List Char)
  | '[' :: cs =>
    match name? cs with
    | some (name, [']']) => some name
    | _ => none
  | _ => none

/-- What a segment of a file's path contributes to its route. -/
def segment? (s : List Char) : Option (List Char) :=
  if isGroup s then none
  else
    match catchAll? s with
    | some name => some (':' :: name ++ ['*'])
    | none =>
      match dynamic? s with
      | some name => some (':' :: name)
      | none => some s

/-- What the directories of a path contribute, without its empty segments. -/
def segments (dir : List Char) : List (List Char) :=
  ((partsAt '/' dir).filter fun s => !s.isEmpty).filterMap segment?

/-- The text of a route. -/
def text (segments : List (List Char)) : String :=
  String.ofList (joinWith '/' (['/', 'a', 'p', 'i'] :: segments))

/-- The directory that every route is below. -/
def marker : List Char := ['/', 'a', 'p', 'i', '/']

end Route

namespace RouteConfig

/-- The route of a file below the `api` directory of the pages directory. -/
def pagesRoute? (c : RouteConfig) (path : List Char) : Option String := do
  if c.pagesDir = "" then failure
  let marker := c.pagesDir.toList ++ Route.marker
  let start ←
    if marker.isPrefixOf path then some 0 else (lastPlace? ('/' :: marker) path).map (· + 1)
  let below := path.drop (start + marker.length)
  let (dir, file) := (cutAtLast? '/' below).getD ([], below)
  let (stem, extension) ← cutAtLast? '.' file
  if stem.isEmpty || !c.extensions.contains (String.ofList extension) then failure
  let own := if stem = "index".toList then [] else (Route.segment? stem).toList
  return Route.text (Route.segments dir ++ own)

/-- Whether a file has one of the names of a file that serves a route. -/
def isEntry (c : RouteConfig) (file : List Char) : Bool :=
  match cutAtLast? '.' file with
  | some (stem, extension) =>
    c.entryNames.contains (String.ofList stem) && c.extensions.contains (String.ofList extension)
  | none => false

/-- The route of a file with a set name below an `api` directory. -/
def appRoute? (c : RouteConfig) (path : List Char) : Option String := do
  let place ← lastPlace? Route.marker path
  let (dir, file) ← cutAtLast? '/' path
  if !c.isEntry file then failure
  return Route.text (Route.segments (dir.drop (place + Route.marker.length - 1)))

/-- The route that a file serves, if it serves one. -/
def route? (c : RouteConfig) (path : String) : Option String :=
  let path := withSlashes path
  c.pagesRoute? path <|> c.appRoute? path

end RouteConfig

end CodeSurvey
