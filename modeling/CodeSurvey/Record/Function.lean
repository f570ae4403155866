import CodeSurvey.Record.Anchor
import CodeSurvey.Record.Basic
import CodeSurvey.Record.Complexity

/-!
# Records of functions

One record for every function-like node, nested ones included.
-/

namespace CodeSurvey

namespace Tree

def isFunctionKind (t : Tree) : Bool :=
  match t.label with
  | .named .functionDeclaration | .named .generatorFunctionDeclaration
  | .named .functionExpression | .named .generatorFunction | .named .arrowFunction => true
  | _ => false

/-- The entry for a parameter that binds no single name. -/
def unnamedParameter : String := "unknown"

/-- The text of a node that is a plain name. -/
def identifierText? (src : Source) (t : Tree) : Option String :=
  if t.isKind .identifier then some (t.text src) else none

/-- The name of a parameter without a wrapper: a default value is taken off, a
rest parameter keeps its dots. -/
def patternName (src : Source) (t : Tree) : String :=
  match t.label with
  | .named .identifier | .named .thisExpression => t.text src
  | .named .restPattern =>
    "..." ++ ((t.namedChildren.head?.bind (·.identifierText? src)).getD unnamedParameter)
  | .named .assignmentPattern =>
    ((t.child? .left).bind (·.identifierText? src)).getD unnamedParameter
  | _ => unnamedParameter

/-- The name of a parameter. The typed dialects wrap each one. -/
def parameterName (src : Source) : Tree → String
  | .node (.named .requiredParameter) _ _ cs => wrapped cs
  | .node (.named .optionalParameter) _ _ cs => wrapped cs
  | t => t.patternName src
where
  /-- The name of the wrapped pattern; wrappers may be nested. -/
  wrapped : List Tree → String
    | [] => unnamedParameter
    | t :: ts => if t.field = some .pattern then t.parameterName src else wrapped ts

/-- A lone parameter without parentheses, or those of the list. -/
def parameterNames (src : Source) (t : Tree) : List String :=
  match t.child? .parameter with
  | some p => [p.parameterName src]
  | none =>
    match t.child? .parameters with
    | some ps => (ps.namedChildren.filter (!·.isKind .comment)).map (·.parameterName src)
    | none => []

/-- The text of the stated return type, without its colon. -/
def returnTypeText? (src : Source) (t : Tree) : Option String :=
  match t.child? .returnType with
  | none => none
  | some ascription =>
    let text := (ascription.text src).toList.dropWhile isWhiteSpace
    let text := match text with
      | ':' :: rest => rest
      | _ => text
    match trimBoth isWhiteSpace text with
    | [] => none
    | type => some (String.ofList type)

def hasAsyncToken (t : Tree) : Bool := t.children.any (·.isToken "async")

end Tree

namespace Cursor

/-- The function's own name, else that of the variable it is the value of. -/
def functionName (src : Source) (c : Cursor) : String :=
  match c.tree.child? .name with
  | some name => name.text src
  | none =>
    (c.enclosingDeclarator?.bind fun d =>
      (d.tree.child? .name).bind (·.identifierText? src)).getD "anonymous"

def functionRecord (src : Source) (c : Cursor) : FunctionRecord where
  name := c.functionName src
  parameters := c.tree.parameterNames src
  returnType := c.tree.returnTypeText? src
  lineStart := c.tree.startLine src
  lineEnd := c.tree.endLine src
  complexity := c.tree.complexity src
  isAsync := c.tree.hasAsyncToken
  isExported := c.isExported
  docComment := c.docComment? src

end Cursor

end CodeSurvey
