import CodeSurvey.Record.Anchor
import CodeSurvey.Record.Basic
import CodeSurvey.Record.Binding

/-!
# Records of imports

Import statements, and calls of `require` and `import` whose first argument is
a literal module name.
-/

namespace CodeSurvey

namespace Tree

/-- The local names of an import specifier list, else of its default or its
namespace. -/
def importedNames (src : Source) (t : Tree) : List String :=
  match t.label with
  | .named .identifier => [t.text src]
  | .named .namespaceImport =>
    match t.namedChildren.find? (·.isKind .identifier) with
    | some name => ["* as " ++ name.text src]
    | none => []
  | .named .namedImports =>
    (t.namedChildren.filter (·.isKind .importSpecifier)).filterMap fun specifier =>
      (specifier.child? .alias <|> specifier.child? .name).map (·.text src)
  | _ => []

/-- The record of an import statement. -/
def importRecord? (src : Source) (t : Tree) : Option ImportRecord :=
  match t.child? .source with
  | some module =>
    let names := match t.childOfKind? .importClause with
      | some clause => clause.namedChildren.flatMap (·.importedNames src)
      | none => []
    some ⟨module.unquoted src, names, .static⟩
  | none =>
    match t.childOfKind? .importRequireClause with
    | none => none
    | some clause =>
      (clause.child? .source).map fun module =>
        let names := match clause.namedChildren.head? with
          | some name => if name.isKind .identifier then [name.text src] else []
          | none => []
        ⟨module.unquoted src, names, .require⟩

/-- A string, or a template without substitutions. -/
def isLiteralText (t : Tree) : Bool :=
  match t.label with
  | .named .stringLiteral => true
  | .named .templateString => !t.namedChildren.any (·.isKind .templateSubstitution)
  | _ => false

/-- What a call imports by, judged by the called expression. -/
def importingCall? (src : Source) (t : Tree) : Option ImportKind :=
  match t.child? .function with
  | none => none
  | some callee =>
    if callee.isKind .importKeyword then some .dynamic
    else if callee.isKind .identifier && callee.text src = "require" then some .require
    else none

end Tree

namespace Cursor

/-- The names that receive the result of a call of `require`. -/
def requiredNames (src : Source) (c : Cursor) : List String :=
  match c.enclosingDeclarator?.bind fun d => d.tree.child? .name with
  | some pattern => pattern.boundNames src
  | none => []

/-- The record of a call that imports a module by a literal name. -/
def callImportRecord? (src : Source) (c : Cursor) : Option ImportRecord :=
  match c.tree.importingCall? src with
  | none => none
  | some kind =>
    match (c.tree.child? .arguments).bind fun args => args.namedChildren.head? with
    | none => none
    | some module =>
      if module.isLiteralText then
        let names := match kind with
          | .require => c.requiredNames src
          | _ => []
        some ⟨module.unquoted src, names, kind⟩
      else none

end Cursor

end CodeSurvey
