import CodeSurvey.Record.Class
import CodeSurvey.Record.Export
import CodeSurvey.Record.Function
import CodeSurvey.Record.Import

/-!
# The records of a tree

One walk over the tree collects the records of every kind, each kind in the
pre-order of the nodes that they stem from.
-/

namespace CodeSurvey

structure Extraction where
  functions : List FunctionRecord
  classes : List ClassRecord
  imports : List ImportRecord
  exports : List ExportRecord
  deriving DecidableEq, Repr

namespace Cursor

/-- The record of the function at the cursor. -/
def functionRecord? (src : Source) (c : Cursor) : Option FunctionRecord :=
  if c.tree.isFunctionKind then some (c.functionRecord src) else none

/-- The record of the class at the cursor. -/
def classRecordAt? (src : Source) (c : Cursor) : Option ClassRecord :=
  if c.tree.isClassKind then c.classRecord? src else none

/-- The record of the import statement or of the importing call at the cursor. -/
def importRecordAt? (src : Source) (c : Cursor) : Option ImportRecord :=
  match c.tree.label with
  | .named .importStatement => c.tree.importRecord? src
  | .named .callExpression => c.callImportRecord? src
  | _ => none

/-- The records of the export statement at the cursor. -/
def exportRecordsAt (src : Source) (c : Cursor) : List ExportRecord :=
  if c.tree.isKind .exportStatement then c.tree.exportRecords src else []

end Cursor

namespace Extraction

/-- The records of the nodes in a list. -/
def ofNodes (src : Source) (nodes : List Cursor) : Extraction where
  functions := nodes.filterMap (·.functionRecord? src)
  classes := nodes.filterMap (·.classRecordAt? src)
  imports := nodes.filterMap (·.importRecordAt? src)
  exports := nodes.flatMap (·.exportRecordsAt src)

/-- The records of all nodes of a tree. -/
def ofTree (src : Source) (t : Tree) : Extraction := ofNodes src (Cursor.ofTree t).walk

end Extraction

end CodeSurvey
