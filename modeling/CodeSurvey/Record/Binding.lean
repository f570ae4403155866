import CodeSurvey.Syntax.Tree
import CodeSurvey.Text.Whitespace

/-!
# Names that a pattern binds, and literal texts

Both imports and exports list the names of a declaration, and both unquote
module names.
-/

namespace CodeSurvey

namespace Tree

/-- The text of a literal without the quotes at its ends. -/
def unquoted (src : Source) (t : Tree) : String :=
  String.ofList (trimBoth (fun c => c = '\x22' || c = '\x27' || c = '\x60') (t.text src).toList)

mutual

/-- The names that a pattern binds, from left to right. Keys and default values
bind nothing. -/
def boundNames (src : Source) : Tree → List String
  | .node (.named .identifier) _ s _ => [src.slice s.start s.stop]
  | .node (.named .shorthandPropertyIdentifierPattern) _ s _ => [src.slice s.start s.stop]
  | .node (.named .objectPattern) _ _ cs => boundNamesOfNamed src cs
  | .node (.named .arrayPattern) _ _ cs => boundNamesOfNamed src cs
  | .node (.named .pairPattern) _ _ cs => boundNamesOfField src .value cs
  | .node (.named .assignmentPattern) _ _ cs => boundNamesOfField src .left cs
  | .node (.named .objectAssignmentPattern) _ _ cs => boundNamesOfField src .left cs
  | .node (.named .restPattern) _ _ cs => boundNamesOfFirstNamed src cs
  | _ => []

/-- The names bound by all named nodes of a list. -/
def boundNamesOfNamed (src : Source) : List Tree → List String
  | [] => []
  | t :: ts => (if t.isNamed then t.boundNames src else []) ++ boundNamesOfNamed src ts

/-- The names bound by the first node that holds `f`. -/
def boundNamesOfField (src : Source) (f : Field) : List Tree → List String
  | [] => []
  | t :: ts => if t.field = some f then t.boundNames src else boundNamesOfField src f ts

/-- The names bound by the first named node of a list. -/
def boundNamesOfFirstNamed (src : Source) : List Tree → List String
  | [] => []
  | t :: ts => if t.isNamed then t.boundNames src else boundNamesOfFirstNamed src ts

end

end Tree

end CodeSurvey
