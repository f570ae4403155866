import CodeSurvey.Syntax.Cursor
import CodeSurvey.Text.Whitespace

/-!
# Declarations around a node

What a function or class takes from its surroundings: whether it is exported,
the variable that it is the value of, and the comment that documents it.
-/

namespace CodeSurvey

namespace Cursor

/-- An export statement stands directly around the node. -/
def isExported (c : Cursor) : Bool := c.parentIsKind .exportStatement

/-- The declarator that the node is the value of. -/
def enclosingDeclarator? (c : Cursor) : Option Cursor :=
  if c.parentIsKind .variableDeclarator && c.holdsFirst .value then c.parent? else none

/-- The declaration that the node is a value in. -/
def enclosingDeclaration? (c : Cursor) : Option Cursor :=
  match c.enclosingDeclarator? with
  | none => none
  | some declarator =>
    if declarator.parentIsKind .lexicalDeclaration || declarator.parentIsKind .variableDeclaration
    then declarator.parent? else none

/-- The outermost node that a comment can stand in front of to document `c`:
the node, the declaration that it is a value in, or the export around that. -/
def docAnchor (c : Cursor) : Cursor :=
  let anchor := c.enclosingDeclaration?.getD c
  if anchor.isExported then anchor.parent?.getD anchor else anchor

end Cursor

/-- The text of a documentation comment, without its delimiters: a block
comment whose body begins with a star. -/
def docText? (comment : String) : Option String :=
  match comment.toList with
  | '/' :: '*' :: rest =>
    match rest.reverse with
    | '/' :: '*' :: body =>
      let body := body.reverse
      if body.head? = some '*' then some (String.ofList (trimBoth isWhiteSpace body)) else none
    | _ => none
  | _ => none

/-- The documentation comment directly in front of a node. -/
def Cursor.docComment? (src : Source) (c : Cursor) : Option String :=
  match c.docAnchor.previousSibling? with
  | some previous => if previous.isKind .comment then docText? (previous.text src) else none
  | none => none

end CodeSurvey
