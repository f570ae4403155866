import CodeSurvey.Language

/-!
# Records of a source file

Plain data: what an analysis says about one file. A record is made once and
never changed.
-/

namespace CodeSurvey

/-- A file as it is handed to the analysis. `sizeBytes` is the size on disk,
which can be larger than `content` if the content was not read. -/
structure SourceFile where
  path : String
  content : String
  sizeBytes : Nat
  deriving DecidableEq, Repr

structure FunctionRecord where
  /-- Its own name, else that of the variable it is the value of. -/
  name : String
  parameters : List String
  returnType : Option String
  lineStart : Nat
  lineEnd : Nat
  complexity : Nat
  isAsync : Bool
  isExported : Bool
  docComment : Option String
  deriving DecidableEq, Repr

structure ClassRecord where
  name : String
  methodNames : List String
  propertyNames : List String
  superclassName : Option String
  implementedInterfaceNames : Option (List String)
  lineStart : Nat
  lineEnd : Nat
  isExported : Bool
  docComment : Option String
  deriving DecidableEq, Repr

/-- How a module comes to depend on another. -/
inductive ImportKind where
  /-- An import statement. -/
  | static
  /-- A call of `require`. -/
  | require
  /-- A call of `import`. -/
  | dynamic
  deriving DecidableEq, Repr

structure ImportRecord where
  sourceModule : String
  boundNames : List String
  kind : ImportKind
  deriving DecidableEq, Repr

inductive ExportKind where
  | named
  | default
  | wildcard
  deriving DecidableEq, Repr

structure ExportRecord where
  /-- The name that other modules see. -/
  name : String
  kind : ExportKind
  line : Nat
  deriving DecidableEq, Repr

structure ParsedFile where
  path : String
  language : Language
  linesOfCode : Nat
  functions : List FunctionRecord
  classes : List ClassRecord
  imports : List ImportRecord
  exports : List ExportRecord
  totalComplexity : Nat
  deriving DecidableEq, Repr

/-! ## Totals -/

/-- The numbers that `f` gives for the items, added. -/
def totalOf {α : Type} (f : α → Nat) : List α → Nat
  | [] => 0
  | a :: as => f a + totalOf f as

theorem totalOf_append {α : Type} (f : α → Nat) (as bs : List α) :
    totalOf f (as ++ bs) = totalOf f as + totalOf f bs := by
  induction as with
  | nil => exact (Nat.zero_add _).symm
  | cons a as ih => rw [List.cons_append, totalOf, ih, totalOf, Nat.add_assoc]

end CodeSurvey
