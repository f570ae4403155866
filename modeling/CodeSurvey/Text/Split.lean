/-!
# Taking texts apart

Cuts of a text at a character, and places of a part in a text.
-/

namespace CodeSurvey

/-- The parts of a list between the places of a separator; there is one part
more than there are separators. -/
def partsAt (sep : Char) : List Char → List (List Char)
  | [] => [[]]
  | c :: cs =>
    match partsAt sep cs with
    | [] => [[]]
    | part :: parts => if c = sep then [] :: part :: parts else (c :: part) :: parts

/-- What stands before the last place of a separator and what stands behind it. -/
def cutAtLast? (sep : Char) (cs : List Char) : Option (List Char × List Char) :=
  if cs.contains sep then
    let behind := (cs.reverse.takeWhile (· != sep)).length
    some (cs.take (cs.length - behind - 1), cs.drop (cs.length - behind))
  else none

/-- The place at which a part begins for the last time. -/
def lastPlace? (part : List Char) : List Char → Option Nat
  | [] => if part.isEmpty then some 0 else none
  | c :: cs =>
    match lastPlace? part cs with
    | some i => some (i + 1)
    | none => if part.isPrefixOf (c :: cs) then some 0 else none

/-- A list with a separator between its parts. -/
def joinWith (sep : Char) : List (List Char) → List Char
  | [] => []
  | [part] => part
  | part :: next :: parts => part ++ sep :: joinWith sep (next :: parts)

/-- A path in which all separators are slashes. -/
def withSlashes (path : String) : List Char := path.toList.map fun c => if c = '\\' then '/' else c

end CodeSurvey
