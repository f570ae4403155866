import CodeSurvey.Syntax.Cursor

/-!
# Cyclomatic complexity

One more than the number of decisions in a subtree. Nested functions are part
of the subtree, so a decision counts for every function around it.

Complexities are counted and added in 32 bits. A count that has no room there
starts again at zero.
-/

namespace CodeSurvey

/-- The operators that leave out their right side under a condition. -/
def isShortCircuit (operator : String) : Bool := operator = "&&" || operator = "||"

/-- Whether a node opens a further path through the code. A clause of a switch
does so unless it is the default. -/
def Tree.isDecision (src : Source) (t : Tree) : Bool :=
  match t.label with
  | .named .ifStatement | .named .forStatement | .named .forInStatement
  | .named .whileStatement | .named .doStatement | .named .catchClause
  | .named .ternaryExpression => true
  | .named .switchCase => (t.child? .value).isSome
  | .named .binaryExpression =>
    match t.child? .operator with
    | some op => isShortCircuit (op.text src)
    | none => false
  | _ => false

/-- The complexity of a subtree. -/
def Tree.complexity (src : Source) (t : Tree) : Nat :=
  let count : UInt32 := (Cursor.ofTree t).walk.foldl
    (fun n c => if c.tree.isDecision src then n + 1 else n) 1
  count.toNat

/-- Complexities added up. -/
def addComplexities (complexities : List Nat) : Nat :=
  let sum : UInt32 := complexities.foldl (fun n c => n + .ofNat c) 0
  sum.toNat

end CodeSurvey
