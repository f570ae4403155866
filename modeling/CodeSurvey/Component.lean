import CodeSurvey.Config.Basic
import CodeSurvey.Record.Basic
import CodeSurvey.Text.Split

/-!
# Components

A function whose name begins with a capital is a component, and so is a class
that extends a known class or has the method that renders it. What a component
is for is read off the path of its file.
-/

namespace CodeSurvey

inductive ComponentKind where
  | functional
  | classBased
  deriving DecidableEq, Repr

/-- What a component is for. -/
inductive ComponentRole where
  /-- The page of a route. -/
  | page
  /-- What the pages below a directory have in common. -/
  | layout
  | component
  deriving DecidableEq, Repr

structure ComponentRecord where
  name : String
  kind : ComponentKind
  role : ComponentRole
  file : String
  deriving DecidableEq, Repr

namespace ComponentRole

/-- The role of the components of a file. The name of the file up to its first
dot decides; a page must be below a directory `app` as well. -/
def ofPath (path : String) : ComponentRole :=
  let path := withSlashes path
  let (dir, file) := (cutAtLast? '/' path).getD ([], path)
  let stem := String.ofList (file.takeWhile (· != '.'))
  if stem = "page" ∧ (partsAt '/' dir).contains "app".toList then page
  else if stem = "layout" then layout
  else component

end ComponentRole

namespace FunctionRecord

/-- Only the capitals of ASCII count. -/
def isComponent (f : FunctionRecord) : Bool :=
  match f.name.toList with
  | c :: _ => c.isUpper
  | [] => false

end FunctionRecord

namespace ClassRecord

def isComponent (c : ComponentConfig) (r : ClassRecord) : Bool :=
  (match r.superclassName with
    | some name => c.baseClasses.contains name
    | none => false)
  || r.methodNames.contains c.renderMethod

end ClassRecord

namespace ParsedFile

/-- The components of a file: first its functions, then its classes. -/
def components (c : ComponentConfig) (f : ParsedFile) : List ComponentRecord :=
  let role := ComponentRole.ofPath f.path
  (f.functions.filter (·.isComponent)).map (fun r => ⟨r.name, .functional, role, f.path⟩)
    ++ (f.classes.filter (·.isComponent c)).map (fun r => ⟨r.name, .classBased, role, f.path⟩)

end ParsedFile

/-- The components of all files, in their order. -/
def detectComponents (c : ComponentConfig) (files : List ParsedFile) : List ComponentRecord :=
  files.flatMap (·.components c)

end CodeSurvey
