import CodeSurvey.Text.Split

/-!
# Paths

A path is a text: a head, which is a slash, a dot or nothing, and segments with
slashes between them. Empty segments and dots behind the head are idle, they
name nothing. `parent?` takes the last name off together with the idle segments
around it and leaves the rest of the text as it is.
-/

namespace CodeSurvey.Path

/-- Whether a segment names nothing. -/
def isIdle (s : List Char) : Bool := s.isEmpty || s == ['.']

/-- The head of a path. A dot is one only at the very beginning. -/
def head : List Char → List Char
  | '/' :: _ => ['/']
  | ['.'] => ['.']
  | '.' :: '/' :: _ => ['.']
  | _ => []

/-- The segments behind the head, idle ones included. -/
def segments (p : List Char) : List (List Char) := partsAt '/' (p.drop (head p).length)

/-- The names behind the head. -/
def names (p : List Char) : List (List Char) := (segments p).filter fun s => !isIdle s

/-- The head, if there is one, and the names. -/
def components (p : List Char) : List (List Char) :=
  if (head p).isEmpty then names p else head p :: names p

/-- The path without its last component. The root and the empty path have none
above them. -/
def parent? (p : List Char) : Option (List Char) :=
  match (segments p).reverse.dropWhile isIdle with
  | _ :: rest => some (head p ++ joinWith '/' (rest.dropWhile isIdle).reverse)
  | [] => if head p = ['.'] then some [] else none

/-- A path and the paths above it, at most `count` of them. -/
def ancestors : Nat → List Char → List (List Char)
  | 0, _ => []
  | count + 1, p =>
    match parent? p with
    | some above => p :: ancestors count above
    | none => [p]

/-- The path of a name within the directory at a path. -/
def join (p name : List Char) : List Char :=
  if name.head? = some '/' then name
  else if p.isEmpty ∨ p.getLast? = some '/' then p ++ name
  else p ++ '/' :: name

/-- The names from the root on that lead to where `names` lead from `place`. Two
dots take a name back, and at the root nothing. -/
def settledFrom (place names : List String) : List String :=
  names.foldl (fun taken name => if name = ".." then taken.dropLast else taken ++ [name]) place

/-- The names that a path leads along from the root, once those that two dots
take back are gone. -/
def settled (names : List String) : List String := settledFrom [] names

end CodeSurvey.Path
