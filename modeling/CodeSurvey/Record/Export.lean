import CodeSurvey.Record.Basic
import CodeSurvey.Record.Binding

/-!
# Records of exports

One export statement gives a record for each name that it makes public, all on
the line on which the statement begins.
-/

namespace CodeSurvey

namespace Tree

/-- The name of what a default export declares or refers to. -/
def defaultExportName? (src : Source) (t : Tree) : Option String :=
  if t.isKind .identifier then some (t.text src)
  else
    match t.child? .name with
    | some name =>
      if name.isKind .identifier || name.isKind .typeIdentifier then some (name.text src) else none
    | none => none

/-- The names that a declaration introduces. -/
def declaredNames (src : Source) (t : Tree) : List String :=
  match t.label with
  | .named .lexicalDeclaration | .named .variableDeclaration =>
    (t.namedChildren.filter (·.isKind .variableDeclarator)).flatMap fun declarator =>
      match declarator.child? .name with
      | some pattern => pattern.boundNames src
      | none => []
  | _ =>
    match t.child? .name with
    | some name => [name.text src]
    | none => []

/-- The public names of a list of specifiers. -/
def specifierNames (src : Source) (t : Tree) : List String :=
  (t.namedChildren.filter (·.isKind .exportSpecifier)).filterMap fun specifier =>
    (specifier.child? .alias <|> specifier.child? .name).map (·.unquoted src)

/-- The public names of an export statement, with the way they are public. -/
def exportedNames (src : Source) (t : Tree) : List (String × ExportKind) :=
  let named (names : List String) := names.map fun name => (name, ExportKind.named)
  if t.children.any (·.isToken "default") then
    let target := t.child? .declaration <|> t.child? .value
    [((target.bind (·.defaultExportName? src)).getD "default", .default)]
  else
    match t.child? .declaration with
    | some declaration => named (declaration.declaredNames src)
    | none =>
      match t.childOfKind? .exportClause with
      | some clause => named (clause.specifierNames src)
      | none =>
        match t.childOfKind? .namespaceExport with
        | some name =>
          named [(name.namedChildren.head?.map (·.unquoted src)).getD "*"]
        | none => if t.children.any (·.isToken "*") then [("*", .wildcard)] else []

/-- The records of an export statement. -/
def exportRecords (src : Source) (t : Tree) : List ExportRecord :=
  (t.exportedNames src).map fun (name, kind) => ⟨name, kind, t.startLine src⟩

end Tree

end CodeSurvey
