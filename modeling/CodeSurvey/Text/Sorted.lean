import CodeSurvey.Json.Value

/-!
# Sorted sets of texts

Lists of texts in byte order without repetitions.
-/

namespace CodeSurvey

/-- Put a text into a sorted list, unless it is there. -/
def insertText (s : String) : List String → List String
  | [] => [s]
  | t :: rest =>
    if s = t then t :: rest
    else if textLess s t then s :: t :: rest
    else t :: insertText s rest

/-- The texts of a list, sorted and each once. -/
def sortedSet (items : List String) : List String := items.foldl (fun set s => insertText s set) []

end CodeSurvey
