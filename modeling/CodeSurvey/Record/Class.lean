import CodeSurvey.Record.Anchor
import CodeSurvey.Record.Basic

/-!
# Records of classes

A class declaration gets a record, and a class expression if it is what a
module exports as its default. Members are listed by their plain names;
private and computed ones are left out.
-/

namespace CodeSurvey

namespace Tree

def isClassKind (t : Tree) : Bool :=
  match t.label with
  | .named .classDeclaration | .named .abstractClassDeclaration | .named .classExpression => true
  | _ => false

/-- The text of the key that a member holds in a field, if it is a plain name. -/
def publicKey? (src : Source) (t : Tree) (f : Field) : Option String :=
  match t.child? f with
  | some key =>
    if key.isKind .propertyIdentifier || key.isKind .identifier then some (key.text src) else none
  | none => none

/-- The name of a method with a body. -/
def methodName? (src : Source) (t : Tree) : Option String :=
  if t.isKind .methodDefinition then t.publicKey? src .name else none

/-- The name of a field; the two grammars keep it in different places. -/
def fieldName? (src : Source) (t : Tree) : Option String :=
  if t.isKind .fieldDefinition then t.publicKey? src .property
  else if t.isKind .publicFieldDefinition then t.publicKey? src .name
  else none

/-- Only plain and dotted names are recorded as a superclass. -/
def superclassText? (src : Source) (t : Tree) : Option String :=
  if t.isKind .identifier || t.isKind .memberExpression then some (t.text src) else none

/-- The name of an implemented interface, without type arguments. -/
def interfaceName? (src : Source) (t : Tree) : Option String :=
  match t.label with
  | .named .typeIdentifier | .named .nestedTypeIdentifier => some (t.text src)
  | .named .genericType => (t.child? .name).map (·.text src)
  | _ => none

/-- The superclass and the interfaces that a heritage names. Of several
clauses that say what is extended the last one counts; a bare expression
counts if nothing did before. -/
def heritageNames (src : Source) (heritage : Tree) : Option String × Option (List String) :=
  heritage.namedChildren.foldl
    (fun (superclass, interfaces) clause =>
      match clause.label with
      | .named .extendsClause =>
        ((clause.child? .value).bind (·.superclassText? src), interfaces)
      | .named .implementsClause =>
        (superclass, some (clause.namedChildren.filterMap (·.interfaceName? src)))
      | _ => (superclass <|> clause.superclassText? src, interfaces))
    (none, none)

end Tree

/-- The record of a class. An expression that is not exported has none, and
neither has a class without a body. -/
def Cursor.classRecord? (src : Source) (c : Cursor) : Option ClassRecord :=
  if c.tree.isKind .classExpression && !c.isExported then none
  else
    (c.tree.child? .body).map fun body =>
      let names := match c.tree.childOfKind? .classHeritage with
        | some heritage => heritage.heritageNames src
        | none => (none, none)
      { name := ((c.tree.child? .name).map (·.text src)).getD "anonymous"
        methodNames := body.namedChildren.filterMap (·.methodName? src)
        propertyNames := body.namedChildren.filterMap (·.fieldName? src)
        superclassName := names.1
        implementedInterfaceNames := names.2
        lineStart := c.tree.startLine src
        lineEnd := c.tree.endLine src
        isExported := c.isExported
        docComment := c.docComment? src }

end CodeSurvey
