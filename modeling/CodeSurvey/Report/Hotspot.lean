import CodeSurvey.Json.Value
import CodeSurvey.Record.Basic

/-!
# Hotspots

The most complex functions of a repository: the larger complexity first, then
the path in byte order, then the line. Functions that agree in all three keep
the order of the files.
-/

namespace CodeSurvey

/-- A function and the path of its file. -/
structure Hotspot where
  path : String
  function : FunctionRecord
  deriving DecidableEq, Repr

namespace Hotspot

/-- Whether `a` ranks strictly before `b`. -/
def ranksBefore (a b : Hotspot) : Bool :=
  b.function.complexity < a.function.complexity
  || (a.function.complexity = b.function.complexity &&
    (textLess a.path b.path
    || (a.path = b.path && a.function.lineStart < b.function.lineStart)))

/-- All functions of some files, in their order. -/
def ofFiles (files : List ParsedFile) : List Hotspot :=
  files.flatMap fun f => f.functions.map fun r => ⟨f.path, r⟩

/-- The first functions by rank, at most `limit` of them. -/
def top (limit : Nat) (files : List ParsedFile) : List Hotspot :=
  ((ofFiles files).mergeSort fun a b => !ranksBefore b a).take limit

end Hotspot

end CodeSurvey
